import SddGov.Git.Listing
import SddGov.MergeGate.Rollback

/-!
# Raw evidence

`verify_merge` looks for `private/raw` in the listing of every commit of the
range. It looks at the text git writes, with a slash put before each line, and
does not undo git's quoting: a quoted path starts with a quote, so a raw path at
the top of the tree is not seen (`hidden_raw_path`). Every other one is
(`shown_of_visible`), and nothing but the listings decides: where none of them
shows a raw path, the gate can be passed (`raw_refused_iff`).
-/

namespace SddGov.MergeGate

open SddGov.Python SddGov.Git

/-! ## Raw paths -/

def privateName : Bytes := [0x70, 0x72, 0x69, 0x76, 0x61, 0x74, 0x65].map byte

def rawName : Bytes := [0x72, 0x61, 0x77].map byte

/-- The components around `private`, `raw` and the name below them. -/
def RawAt (p : TreePath) (before after : List Bytes) : Prop :=
  ∃ name, p.components = before ++ privateName :: rawName :: name :: after

/-- Consecutive components `private` and `raw`, followed by a name. -/
def RawPath (p : TreePath) : Prop := ∃ before after, RawAt p before after

/-- The path is written as it is, or its raw components are not at the top. -/
def Visible (quotePath : Bool) (p : TreePath) : Prop :=
  ∃ before after, RawAt p before after ∧ (p.bytes.any (mustQuote quotePath) = false ∨ before ≠ [])

/-- The text of a listing shows a raw path. -/
def showsRaw (text : PyStr) : Bool :=
  (splitLines (strip text)).any fun path => containsText (lit "/private/raw/") (lit "/" ++ path)

/-- The listing of these paths cannot be read, or shows a raw path. -/
def Shown (quotePath : Bool) (paths : List TreePath) : Prop :=
  ∀ text, utf8Decode (listing quotePath paths) = some text →
    showsRaw (universalNewlines text) = true

/-- A text contains another one if that is an infix. -/
theorem containsText_iff {needle s : PyStr} : containsText needle s = true ↔ needle <:+: s := by
  unfold containsText
  rw [List.any_eq_true]
  constructor
  · intro h
    obtain ⟨t, ht, hprefix⟩ := h
    exact (List.isPrefixOf_iff_prefix.mp hprefix).isInfix.trans ((List.mem_tails _ _).mp ht).isInfix
  · intro h
    obtain ⟨front, back, rfl⟩ := h
    refine ⟨needle ++ back, ?_, ?_⟩
    · rw [List.mem_tails, List.append_assoc]
      exact List.suffix_append front _
    · exact List.isPrefixOf_iff_prefix.mpr (List.prefix_append needle back)

/-! ## What is shown -/

/-- `private/raw/`. -/
def rawStart : Bytes := privateName ++ slash :: rawName ++ [slash]

theorem rawStart_text : rawStart.map (fun b => cp b.val) = lit "private/raw/" := by decide

theorem rawStart_plain {quotePath : Bool} : ∀ b ∈ rawStart, mustQuote quotePath b = false := by
  cases quotePath <;> decide +kernel

theorem rawStart_ascii : ∀ b ∈ rawStart, b.val < 0x80 := by decide +kernel

theorem joinPath_raw (name : Bytes) (after : List Bytes) :
    joinPath (privateName :: rawName :: name :: after) = rawStart ++ joinPath (name :: after) := by
  simp [joinPath, rawStart]

theorem trimmed_rawStart : Trimmed (lit "private/raw/") :=
  ⟨⟨cp 0x70, lit "rivate/raw/", by decide, by decide⟩,
    lit "private/raw", cp 0x2F, by decide, by decide⟩

theorem trimmed_rawInside : Trimmed (lit "/private/raw/") :=
  ⟨⟨cp 0x2F, lit "private/raw/", by decide, by decide⟩,
    lit "/private/raw", cp 0x2F, by decide, by decide⟩

theorem unbroken_rawStart : Unbroken (lit "private/raw/") := by
  refine ⟨by decide, fun c hc => ?_⟩
  have hall : ((lit "private/raw/").all fun c => !isLineBreak c) = true := by decide
  simpa using List.all_eq_true.mp hall c hc

theorem unbroken_rawInside : Unbroken (lit "/private/raw/") := by
  refine ⟨by decide, fun c hc => ?_⟩
  have hall : ((lit "/private/raw/").all fun c => !isLineBreak c) = true := by decide
  simpa using List.all_eq_true.mp hall c hc

theorem noReturn_part {s t : PyStr} (h : NoReturn s) (hsub : ∀ c ∈ t, c ∈ s) : NoReturn t :=
  fun c hc => h c (hsub c hc)

theorem strip_sub {s : PyStr} : ∀ c ∈ strip s, c ∈ s := by
  intro c hc
  unfold strip at hc
  have h := (List.dropWhile_sublist isSpace).subset (List.mem_reverse.mp hc)
  exact (List.dropWhile_sublist isSpace).subset (List.mem_reverse.mp h)

/-- A raw path below a directory is shown, quoted or not. -/
theorem showsRaw_inside {s u : PyStr} (hreturn : NoReturn (s ++ lit "/private/raw/" ++ u)) :
    showsRaw (s ++ lit "/private/raw/" ++ u) = true := by
  have hstrip := strip_around (s := s) (u := u) trimmed_rawInside
  obtain ⟨line, hline, hinfix⟩ := line_around unbroken_rawInside
    (noReturn_part hreturn fun c hc => strip_sub c (by rw [hstrip]; exact hc))
  unfold showsRaw
  rw [List.any_eq_true, hstrip]
  refine ⟨line, hline, containsText_iff.mpr ?_⟩
  exact hinfix.trans (List.suffix_append (lit "/") line).isInfix

/-- A raw path at the start of a line is shown. -/
theorem showsRaw_start {s u : PyStr} (hs : LineStart s)
    (hreturn : NoReturn (s ++ lit "private/raw/" ++ u)) :
    showsRaw (s ++ lit "private/raw/" ++ u) = true := by
  have hstrip := strip_around (s := s) (u := u) trimmed_rawStart
  obtain ⟨line, hline, rest, rfl⟩ := line_of_start unbroken_rawStart (lineStart_dropWhile hs)
    (noReturn_part hreturn fun c hc => strip_sub c (by rw [hstrip]; exact hc))
  unfold showsRaw
  rw [List.any_eq_true, hstrip]
  refine ⟨_, hline, containsText_iff.mpr ?_⟩
  have hslash : lit "/" ++ lit "private/raw/" = lit "/private/raw/" := by decide
  rw [← List.append_assoc, hslash]
  exact (List.prefix_append _ rest).isInfix

theorem lineStart_text {s : PyStr} {b : Bytes} (h : utf8Encode s = some b)
    (hb : b = [] ∨ ∃ init, b = init ++ [byte 0x0A]) : LineStart s := by
  rcases hb with rfl | ⟨init, rfl⟩
  · exact .inl (utf8Encode_eq_nil h)
  · obtain ⟨front, back, rfl, -, hback⟩ := utf8Encode_split (x := byte 0x0A) (b := []) (by decide) h
    obtain rfl := utf8Encode_eq_nil hback
    exact .inr ⟨front, rfl⟩

/-- **A visible raw path is shown** by every listing it is in. -/
theorem shown_of_visible {quotePath : Bool} {paths : List TreePath} {p : TreePath} (hp : p ∈ paths)
    (h : Visible quotePath p) : Shown quotePath paths := by
  intro text htext
  have hreturn := noReturn_listing htext
  have hencode := utf8Encode_utf8Decode htext
  obtain ⟨front, back, hlisting, hfront⟩ := @listing_around quotePath _ _ hp
  obtain ⟨before, after, ⟨name, hcomponents⟩, hvisible⟩ := h
  rw [universalNewlines_eq_self hreturn]
  by_cases hbefore : before = []
  · -- at the top of the tree, and not quoted
    subst hbefore
    have hplain : p.bytes.any (mustQuote quotePath) = false := by
      rcases hvisible with hplain | hne
      · exact hplain
      · exact absurd rfl hne
    have hbytes : quoted quotePath p.bytes = rawStart ++ joinPath (name :: after) := by
      unfold quoted
      rw [hplain, TreePath.bytes, hcomponents, List.nil_append, joinPath_raw]
      rfl
    rw [hlisting, hbytes, ← List.append_assoc, List.append_assoc] at hencode
    obtain ⟨s, u, rfl, hs, -⟩ := utf8Encode_around rawStart_ascii hencode (by decide)
    rw [rawStart_text] at hreturn ⊢
    exact showsRaw_start (lineStart_text hs hfront) hreturn
  · have hbytes : p.bytes = joinPath before ++ (slash :: rawStart) ++ joinPath (name :: after) := by
      rw [TreePath.bytes, hcomponents, joinPath_append hbefore (by simp), joinPath_raw]
      simp
    have hplain : ∀ b ∈ slash :: rawStart, mustQuote quotePath b = false := by
      intro b hb
      rcases List.mem_cons.mp hb with rfl | hb
      · cases quotePath <;> decide
      · exact rawStart_plain b hb
    have hascii : ∀ b ∈ slash :: rawStart, b.val < 0x80 := by decide +kernel
    have hinside : (slash :: rawStart).map (fun b => cp b.val) = lit "/private/raw/" := by decide
    obtain ⟨front', back', hquoted⟩ := @quoted_around quotePath
      (joinPath before) _ (joinPath (name :: after)) hplain
    rw [hlisting, hbytes, hquoted] at hencode
    have hjoin : front ++ (front' ++ (slash :: rawStart) ++ back') ++ back
        = (front ++ front') ++ (slash :: rawStart) ++ (back' ++ back) := by simp
    rw [hjoin] at hencode
    obtain ⟨s, u, rfl, -, -⟩ := utf8Encode_around hascii hencode (by decide)
    rw [hinside] at hreturn ⊢
    exact showsRaw_inside hreturn

/-! ## The check -/

/-- The client lists these commits, and the paths of each. -/
structure Tracks (G : Client) (quotePath : Bool) (baseRef : PyStr) (commits : List ObjectId)
    (tree : ObjectId → List TreePath) : Prop where
  range : ∀ completed, G.run [lit "rev-list", baseRef ++ lit "..HEAD"] = .ok completed →
    completed.returncode = 0 → completed.stdout = terminated lf (commits.map ObjectId.text)
  listed : ∀ c ∈ commits, ∀ completed,
    G.run [lit "ls-tree", lit "-r", lit "--name-only", c.text] = .ok completed →
      completed.returncode = 0 →
    ∃ text, utf8Decode (listing quotePath (tree c)) = some text
      ∧ completed.stdout = universalNewlines text

variable {M : MergeHost} {quotePath : Bool} {baseRef : PyStr} {commits : List ObjectId}
  {tree : ObjectId → List TreePath}

/-- Without a find, no listing of the range has raw evidence. -/
theorem trackedRaw_nil {names : List PyStr} (h : trackedRaw M names = .ok []) :
    ∀ name ∈ names, ∃ listed, git M.git [lit "ls-tree", lit "-r", lit "--name-only", name]
    = .ok listed
      ∧ (splitLines listed).any
        (fun path => containsText (lit "/private/raw/") (lit "/" ++ path)) = false := by
  induction names with
  | nil => simp
  | cons name names ih =>
    obtain ⟨listed, hlisted, h⟩ := except_bind_ok.mp h
    obtain ⟨others, hothers, h⟩ := except_bind_ok.mp h
    obtain ⟨hnone, rfl⟩ := List.append_eq_nil_iff.mp (Except.ok.inj h)
    intro c hc
    rcases List.mem_cons.mp hc with rfl | hc
    · refine ⟨listed, hlisted, ?_⟩
      rw [List.filter_eq_nil_iff] at hnone
      simpa using hnone
    · exact ih hothers c hc

/-- Listings without raw evidence find none. -/
theorem trackedRaw_clear {names : List PyStr}
    (h : ∀ name ∈ names, ∃ listed, git M.git [lit "ls-tree", lit "-r", lit "--name-only", name]
      = .ok listed
      ∧ (splitLines listed).any
        (fun path => containsText (lit "/private/raw/") (lit "/" ++ path)) = false) :
    trackedRaw M names = .ok [] := by
  induction names with
  | nil => rfl
  | cons name names ih =>
    obtain ⟨listed, hlisted, hnone⟩ := h name (List.mem_cons_self ..)
    refine except_bind_ok.mpr ⟨listed, hlisted, except_bind_ok.mpr
      ⟨[], ih fun c hc => h c (List.mem_cons_of_mem _ hc), ?_⟩⟩
    rw [List.append_nil, List.filter_eq_nil_iff.mpr]
    simpa using hnone

/-- An `if` whose branches go on in the same way. -/
theorem ite_bind_ok {α β : Type} {c : Prop} [Decidable c] {x y : Except Exn α}
    {f : α → Except Exn β} {b : β} :
    (if c then x >>= f else y >>= f) = .ok b ↔ ∃ a, (if c then x else y) = .ok a ∧ f a = .ok b := by
  split <;> exact except_bind_ok

/-- A gate that is passed has listed every commit, and no listing shows a raw path. -/
theorem not_shown_of_ok {C : Crypto} {gatePath : PyStr} {runChecks : Bool} {result : Members}
    (hT : Tracks M.git quotePath baseRef commits tree)
    (h : verifyMerge M C baseRef gatePath runChecks = .ok result) :
    ∀ c ∈ commits, ¬Shown quotePath (tree c) := by
  obtain ⟨_, -, h⟩ := except_bind_ok.mp h
  obtain ⟨_, -, h⟩ := except_bind_ok.mp h
  obtain ⟨_, -, h⟩ := except_bind_ok.mp h
  obtain ⟨_, -, h⟩ := except_bind_ok.mp h
  obtain ⟨_, -, h⟩ := except_bind_ok.mp h
  obtain ⟨_, -, h⟩ := except_bind_ok.mp h
  obtain ⟨_, -, h⟩ := except_bind_ok.mp h
  obtain ⟨_, -, h⟩ := except_bind_ok.mp h
  obtain ⟨_, -, h⟩ := except_bind_ok.mp h
  obtain ⟨_, -, h⟩ := except_bind_ok.mp h
  obtain ⟨_, -, h⟩ := except_bind_ok.mp h
  obtain ⟨_, -, h⟩ := except_bind_ok.mp h
  obtain ⟨_, -, h⟩ := except_bind_ok.mp h
  obtain ⟨_, -, h⟩ := ite_bind_ok.mp h
  obtain ⟨_, -, h⟩ := except_bind_ok.mp h
  obtain ⟨text, htext, h⟩ := except_bind_ok.mp h
  obtain ⟨raw, hraw, h⟩ := except_bind_ok.mp h
  obtain ⟨_, hrefuse, -⟩ := except_bind_ok.mp h
  have hnil : raw = [] := by
    unfold refuseRaw at hrefuse
    split at hrefuse
    · next hempty =>
      rw [List.isEmpty_iff] at hempty
      refine List.eq_nil_iff_forall_not_mem.mpr fun path hpath => ?_
      have hmem := mem_sortedSet.mpr hpath
      rw [hempty] at hmem
      exact absurd hmem (by simp)
    · exact absurd hrefuse (by simp)
  subst hnil
  obtain ⟨completed, hrun, hcode, rfl⟩ := git_ok htext
  rw [hT.range completed hrun hcode, splitLines_strip_terminated] at hraw
  · intro c hc hshown
    obtain ⟨listed, hlisted, hnone⟩ := trackedRaw_nil hraw c.text (List.mem_map_of_mem hc)
    obtain ⟨done, hdone, hcode, rfl⟩ := git_ok hlisted
    obtain ⟨text, htext, hout⟩ := hT.listed c hc done hdone hcode
    have hshows := hshown text htext
    rw [hout] at hnone
    unfold showsRaw at hshows
    rw [hshows] at hnone
    exact absurd hnone (by simp)
  · intro s hs
    obtain ⟨c, -, rfl⟩ := List.mem_map.mp hs
    exact c.word

/-! ## Nothing else decides -/

/-- The commands that list commits and trees for the raw check. -/
def isListing : List PyStr → Bool
  | [command, _] => command == lit "rev-list"
  | command :: _ => command == lit "ls-tree"
  | [] => false

/-- The clients differ in their listings only. -/
def AgreeOffListings (G G' : Client) : Prop :=
  (∀ args, isListing args = false → G'.run args = G.run args) ∧ G'.isolated = G.isolated

section Swap

variable {G G' : Client} (hG : AgreeOffListings G G')

include hG

theorem git_swap {args : List PyStr} (h : isListing args = false) : git G' args = git G args := by
  unfold git
  rw [hG.1 args h]

theorem commitEdgePaths_swap (parent commit : PyStr) :
    commitEdgePaths G' parent commit = commitEdgePaths G parent commit := by
  unfold commitEdgePaths
  rw [git_swap hG (by simp [isListing])]

theorem changedPaths_swap (start stop : PyStr) :
    changedPaths G' start stop = changedPaths G start stop := by
  unfold changedPaths
  rw [git_swap hG (by simp [isListing])]

theorem edgesAreAuditOnly_swap (includeEvidence : Bool) (commit : PyStr) (parents : List PyStr) :
    edgesAreAuditOnly G' includeEvidence commit parents
    = edgesAreAuditOnly G includeEvidence commit parents := by
  induction parents with
  | nil => rfl
  | cons parent rest ih => rw [edgesAreAuditOnly, edgesAreAuditOnly, commitEdgePaths_swap hG, ih]

theorem commitsAreAuditOnly_swap (includeEvidence : Bool) (names : List PyStr) :
    commitsAreAuditOnly G' includeEvidence names = commitsAreAuditOnly G includeEvidence names := by
  induction names with
  | nil => rfl
  | cons name rest ih =>
    rw [commitsAreAuditOnly, commitsAreAuditOnly, git_swap hG (by simp [isListing]), ih]
    simp only [edgesAreAuditOnly_swap hG]

theorem everyDescendant_swap (start stop : PyStr) (includeEvidence : Bool) :
    everyDescendantCommitIsAuditOnly G' start stop includeEvidence
      = everyDescendantCommitIsAuditOnly G start stop includeEvidence := by
  unfold everyDescendantCommitIsAuditOnly
  rw [hG.1 _ (by simp [isListing]), git_swap hG (by simp [isListing])]
  simp only [commitsAreAuditOnly_swap hG]

end Swap

/-- The same host with another client. -/
def MergeHost.withGit (M : MergeHost) (G : Client) : MergeHost := { M with git := G }

section Host

variable {G : Client}

theorem checkDeps_swap (gate : Members) : checkDeps (M.withGit G) gate = checkDeps M gate := by
  have herrors (deps : List PyStr) : depErrors (M.withGit G) deps = depErrors M deps := by
    induction deps with
    | nil => rfl
    | cons relative rest ih =>
      rw [depErrors, depErrors, ih]
      rfl
  unfold checkDeps
  simp only [herrors]

variable (hG : AgreeOffListings M.git G)

include hG

/-- Whether a reference is in the range does not depend on the listings. -/
theorem rollbackRefIsInCandidateRange_swap (rollbackRef baseSha headSha : PyStr) :
    rollbackRefIsInCandidateRange (M.withGit G) rollbackRef baseSha headSha
      = rollbackRefIsInCandidateRange M rollbackRef baseSha headSha := by
  have hancestor (older newer : PyStr) : isAncestor (M.withGit G) older newer
    = isAncestor M older newer := by
    unfold isAncestor
    show (G.run _ >>= _) = _
    rw [hG.1 _ (by simp [isListing])]
  unfold rollbackRefIsInCandidateRange
  simp only [hancestor]
  show (noneOnValue (git G _) >>= _) = _
  rw [git_swap hG (by simp [isListing])]

theorem revertRestoresBase_swap (rollbackRef baseSha headSha parent : PyStr) :
    revertRestoresBase (M.withGit G) rollbackRef baseSha headSha parent
      = revertRestoresBase M rollbackRef baseSha headSha parent := by
  unfold revertRestoresBase
  show (M.temporaryDirectory >>= fun temporary => G.isolated _ >>= _) = _
  simp only [MergeHost.withGit, hG.2]

/-- Whether a rollback is clean does not depend on how `git` answers the listing. -/
theorem cleanlyRevertible_swap (rollbackRef baseSha headSha : PyStr) :
    rollbackRefIsCleanlyRevertible (M.withGit G) rollbackRef baseSha headSha
      = rollbackRefIsCleanlyRevertible M rollbackRef baseSha headSha := by
  have haudit (parent : PyStr) : touchesNoAudit (M.withGit G) parent rollbackRef
      = touchesNoAudit M parent rollbackRef := by
    unfold touchesNoAudit
    show (noneOnValue (changedPaths G _ _) >>= _) = _
    rw [changedPaths_swap hG]
  have hobjects : objectsAreThere (M.withGit G) = objectsAreThere M := by
    unfold objectsAreThere
    show (noneOnOsOrValue (git G _ >>= _) >>= _) = _
    rw [git_swap hG (by simp [isListing])]
    rfl
  have hdescendants : everyDescendantCommitIsAuditOnly (M.withGit G).git rollbackRef headSha true
      = everyDescendantCommitIsAuditOnly M.git rollbackRef headSha true :=
        everyDescendant_swap hG _ _ _
  unfold rollbackRefIsCleanlyRevertible
  simp only [haudit, hobjects, hdescendants, revertRestoresBase_swap hG]
  show (noneOnValue (git G _) >>= _) = _
  rw [git_swap hG (by simp [isListing])]

theorem checkRollback_swap (gate : Members) (headSha baseSha : PyStr) :
    checkRollback (M.withGit G) gate headSha baseSha = checkRollback M gate headSha baseSha := by
  have hrecord : rollbackRecord (M.withGit G) gate headSha baseSha
    = rollbackRecord M gate headSha baseSha := by
    unfold rollbackRecord
    have hshow (name : PyStr) : git G [lit "show", name] = git M.git [lit "show", name] :=
      git_swap hG (by simp [isListing])
    simp only [MergeHost.withGit, hshow]
  unfold checkRollback
  simp only [hrecord, rollbackRefIsInCandidateRange_swap hG, cleanlyRevertible_swap hG]

/-- A gate that is passed is passed with other listings, where none of them shows a raw path. -/
theorem verifyMerge_swap {C : Crypto} {gatePath : PyStr} {runChecks : Bool} {result : Members}
    (h : verifyMerge M C baseRef gatePath runChecks = .ok result) {text : PyStr}
    (htext : git G [lit "rev-list", baseRef ++ lit "..HEAD"] = .ok text)
    (hraw : trackedRaw (M.withGit G) (splitLines text) = .ok []) :
    verifyMerge (M.withGit G) C baseRef gatePath runChecks = .ok result := by
  have hgit {args : List PyStr} {out : PyStr} (hargs : isListing args = false)
      (h : git M.git args = .ok out) : git (M.withGit G).git args = .ok out := by
    rw [← h]
    exact git_swap hG hargs
  obtain ⟨status, hstatus, h⟩ := except_bind_ok.mp h
  obtain ⟨_, hclean, h⟩ := except_bind_ok.mp h
  obtain ⟨headSha, hhead, h⟩ := except_bind_ok.mp h
  obtain ⟨baseSha, hbase, h⟩ := except_bind_ok.mp h
  obtain ⟨gate, hgate, h⟩ := except_bind_ok.mp h
  obtain ⟨reviewed, hreviewed, h⟩ := except_bind_ok.mp h
  obtain ⟨audited, haudited, h⟩ := except_bind_ok.mp h
  obtain ⟨_, htrue, h⟩ := except_bind_ok.mp h
  obtain ⟨_, hbuilder, h⟩ := except_bind_ok.mp h
  obtain ⟨digest, hdigest, h⟩ := except_bind_ok.mp h
  obtain ⟨_, hsame, h⟩ := except_bind_ok.mp h
  obtain ⟨deps, hdeps, h⟩ := except_bind_ok.mp h
  obtain ⟨rollback, hrollback, h⟩ := except_bind_ok.mp h
  obtain ⟨green, hgreen, h⟩ := ite_bind_ok.mp h
  obtain ⟨_, hpost, h⟩ := except_bind_ok.mp h
  obtain ⟨_, -, h⟩ := except_bind_ok.mp h
  obtain ⟨_, -, h⟩ := except_bind_ok.mp h
  obtain ⟨_, -, h⟩ := except_bind_ok.mp h
  obtain ⟨changed, hchanged, h⟩ := except_bind_ok.mp h
  have hdigest' : changeDigest (M.withGit G) C baseRef = .ok digest := by
    rw [← hdigest]
    unfold changeDigest
    show (git G _ >>= _) = _
    rw [git_swap hG (by simp [isListing])]
  have haudited' : onlyAuditChangesAfterReview (M.withGit G).git reviewed headSha
    = .ok audited := by
    rw [← haudited]
    exact everyDescendant_swap hG _ _ _
  refine except_bind_ok.mpr ⟨status, hgit (by simp [isListing]) hstatus, ?_⟩
  refine except_bind_ok.mpr ⟨_, hclean, ?_⟩
  refine except_bind_ok.mpr ⟨headSha, hgit (by simp [isListing]) hhead, ?_⟩
  refine except_bind_ok.mpr ⟨baseSha, hgit (by simp [isListing]) hbase, ?_⟩
  refine except_bind_ok.mpr ⟨gate, hgate, ?_⟩
  refine except_bind_ok.mpr ⟨reviewed, hreviewed, ?_⟩
  refine except_bind_ok.mpr ⟨audited, haudited', ?_⟩
  refine except_bind_ok.mpr ⟨_, htrue, ?_⟩
  refine except_bind_ok.mpr ⟨_, hbuilder, ?_⟩
  refine except_bind_ok.mpr ⟨digest, hdigest', ?_⟩
  refine except_bind_ok.mpr ⟨_, hsame, ?_⟩
  refine except_bind_ok.mpr ⟨deps, (checkDeps_swap gate).trans hdeps, ?_⟩
  refine except_bind_ok.mpr ⟨rollback, (checkRollback_swap hG gate reviewed baseSha).trans
    hrollback, ?_⟩
  refine ite_bind_ok.mpr ⟨green, hgreen, ?_⟩
  refine except_bind_ok.mpr ⟨_, hpost, ?_⟩
  refine except_bind_ok.mpr ⟨text, htext, ?_⟩
  refine except_bind_ok.mpr ⟨[], hraw, ?_⟩
  refine except_bind_ok.mpr ⟨(), rfl, ?_⟩
  exact except_bind_ok.mpr ⟨changed, (changedPaths_swap hG baseRef (lit "HEAD")).trans hchanged, h⟩

end Host

/-! ## A gate over any trees -/

/-- The sample client, with the listings of these commits and trees. -/
def listingClient (quotePath : Bool) (commits : List ObjectId) (tree : ObjectId → List TreePath) :
    Client where
  run args :=
    if args = [lit "rev-list", lit "main" ++ lit "..HEAD"] then
      .ok (done (terminated lf (commits.map ObjectId.text)))
    else
      match commits.find? fun c => args == [lit "ls-tree", lit "-r", lit "--name-only", c.text] with
      | some c => textRun (listing quotePath (tree c))
      | none => sampleHost.git.run args
  isolated := sampleHost.git.isolated

/-- The gate of the sample, over these commits and trees. -/
def listingHost (quotePath : Bool) (commits : List ObjectId) (tree : ObjectId → List TreePath) :
    MergeHost :=
  sampleHost.withGit (listingClient quotePath commits tree)

/-- The two clients agree on everything else. -/
theorem listingClient_agrees : AgreeOffListings sampleHost.git
    (listingClient quotePath commits tree) := by
  refine ⟨fun args hargs => ?_, rfl⟩
  unfold listingClient
  dsimp only
  rw [if_neg]
  · have hnone :
      commits.find? (fun c => args == [lit "ls-tree", lit "-r", lit "--name-only", c.text])
      = none := by
      rw [List.find?_eq_none]
      intro c _ heq
      rw [beq_iff_eq.mp heq] at hargs
      exact absurd hargs (by simp [isListing])
    rw [hnone]
  · rintro rfl
    exact absurd hargs (by simp [isListing])

/-- The listing of a commit in the range is that of its tree. -/
theorem listingClient_tree {c : ObjectId} (hc : c ∈ commits) :
    (listingClient quotePath commits tree).run [lit "ls-tree", lit "-r", lit "--name-only", c.text]
      = textRun (listing quotePath (tree c)) := by
  unfold listingClient
  dsimp only
  rw [if_neg (by simp)]
  cases hfind : commits.find? fun d => [lit "ls-tree", lit "-r", lit "--name-only", c.text]
      == [lit "ls-tree", lit "-r", lit "--name-only", d.text] with
  | none =>
    rw [List.find?_eq_none] at hfind
    exact absurd (beq_self_eq_true _) (hfind c hc)
  | some d =>
    have hsame := List.find?_some hfind
    have htext : c.text = d.text := by simpa using hsame
    have hid : c = d := by
      cases c
      cases d
      simpa using htext
    rw [hid]

/-- The client answers as `git` does for these commits and trees. -/
theorem listingClient_tracks :
    Tracks (listingClient quotePath commits tree) quotePath (lit "main") commits tree where
  range := by
    intro completed hrun _
    have hlist : (listingClient quotePath commits tree).run
      [lit "rev-list", lit "main" ++ lit "..HEAD"]
        = .ok (done (terminated lf (commits.map ObjectId.text))) := by
      unfold listingClient
      dsimp only
      rw [if_pos rfl]
    rw [hlist] at hrun
    rw [← Except.ok.inj hrun]
    rfl
  listed := by
    intro c hc completed hrun _
    rw [listingClient_tree hc] at hrun
    unfold textRun at hrun
    split at hrun
    · exact absurd hrun (by simp)
    · next text htext =>
      refine ⟨text, htext, ?_⟩
      rw [← Except.ok.inj hrun]
      rfl

/-- Where no listing shows a raw path, the sample is merge-ready. -/
theorem listingHost_ready (h : ∀ c ∈ commits, ¬Shown quotePath (tree c)) :
    ∃ result, verifyMerge (listingHost quotePath commits tree) patchCrypto (lit "main")
    (lit "gate") false
      = .ok result := by
  obtain ⟨result, hready⟩ := sample_ready
  have hrange : git (listingClient quotePath commits tree)
    [lit "rev-list", lit "main" ++ lit "..HEAD"]
      = .ok (strip (terminated lf (commits.map ObjectId.text))) := rfl
  refine ⟨result, verifyMerge_swap listingClient_agrees hready hrange ?_⟩
  rw [splitLines_strip_terminated]
  · refine trackedRaw_clear fun name hname => ?_
    obtain ⟨c, hc, rfl⟩ := List.mem_map.mp hname
    have hshown := h c hc
    unfold Shown at hshown
    simp only [not_forall, Bool.not_eq_true] at hshown
    obtain ⟨text, htext, hnone⟩ := hshown
    refine ⟨strip (universalNewlines text), ?_, hnone⟩
    have hrun : (sampleHost.withGit (listingClient quotePath commits tree)).git.run
        [lit "ls-tree", lit "-r", lit "--name-only", c.text]
          = .ok (done (universalNewlines text)) := by
      refine (listingClient_tree hc).trans ?_
      unfold textRun
      rw [htext]
    unfold git
    rw [hrun]
    rfl
  · intro s hs
    obtain ⟨c, -, rfl⟩ := List.mem_map.mp hs
    exact c.word

/-- **Raw evidence and the gate.** Every call over these commits is refused exactly where the
listing of one of them shows a raw path; and it shows every raw path that is visible. -/
theorem raw_refused_iff (quotePath : Bool) (commits : List ObjectId)
    (tree : ObjectId → List TreePath) :
    ((∀ (M : MergeHost) (C : Crypto) (baseRef gatePath : PyStr) (runChecks : Bool),
        Tracks M.git quotePath baseRef commits tree →
        ∃ e, verifyMerge M C baseRef gatePath runChecks = .error e)
      ↔ ∃ c ∈ commits, Shown quotePath (tree c))
    ∧ ∀ c p, p ∈ tree c → Visible quotePath p → Shown quotePath (tree c) := by
  refine ⟨⟨fun h => ?_, fun h M C baseRef gatePath runChecks hT => ?_⟩, fun c p hp hv =>
    shown_of_visible hp hv⟩
  · by_contra hnone
    obtain ⟨result, hready⟩ := @listingHost_ready quotePath commits tree
      fun c hc hshown => hnone ⟨c, hc, hshown⟩
    obtain ⟨e, he⟩ := h (listingHost quotePath commits tree) patchCrypto (lit "main")
      (lit "gate") false
      listingClient_tracks
    rw [hready] at he
    exact absurd he (by simp)
  · obtain ⟨c, hc, hshown⟩ := h
    cases hresult : verifyMerge M C baseRef gatePath runChecks with
    | error e => exact ⟨e, rfl⟩
    | ok result => exact absurd hshown (not_shown_of_ok hT hresult c hc)

/-- `private/raw/é`. -/
def quotedRaw : TreePath where
  components := [privateName, rawName, [byte 0xC3, byte 0xA9]]
  named := by decide

/-- The gate is passed over a head that tracks `private/raw/é`. -/
theorem hidden_raw_path :
    RawPath quotedRaw
      ∧ Tracks (listingHost true [headId] fun _ => [quotedRaw]).git true (lit "main") [headId]
        (fun _ => [quotedRaw])
      ∧ ∃ result, verifyMerge (listingHost true [headId] fun _ => [quotedRaw]) patchCrypto
        (lit "main")
        (lit "gate") false = .ok result := by
  refine ⟨⟨[], [], [byte 0xC3, byte 0xA9], rfl⟩, listingClient_tracks,
    listingHost_ready fun c _ hshown => ?_⟩
  have htext : utf8Decode (listing true [quotedRaw])
      = some (lit "\"private/raw/\\303\\251\"" ++ [lf]) := by decide
  have hnone : showsRaw (universalNewlines (lit "\"private/raw/\\303\\251\"" ++ [lf])) = false := by
    decide
  rw [hshown _ htext] at hnone
  exact absurd hnone (by simp)

end SddGov.MergeGate
