import SddGov.Git.History
import SddGov.Python.Exn
import SddGov.Python.Lines

/-!
# The git client

Git is reached through the arguments of its commands and what the processes
leave: a return code and two texts. `Client` is any such client; `Follows` says
that it answers for a given repository, command by command, and says nothing
of commands that fail.

The name-status records are read by `nameStatusPaths`, and what git wrote is
what is read (`changedBetween_ok`).
-/

namespace SddGov.Git

open SddGov.Python

/-! ## Commands -/

/-- A process that has ended. -/
structure Completed where
  returncode : Int
  stdout : PyStr
  stderr : PyStr

/-- What `subprocess.run` gives for the arguments of a git command. -/
structure Client where
  /-- in the repository -/
  run : List PyStr → Except Exn Completed
  /-- in an empty bare repository that borrows the objects -/
  isolated : List PyStr → Except Exn Completed

variable {G : Client}

/-- `_git`. -/
def git (G : Client) (args : List PyStr) : Except Exn PyStr := do
  let completed ← G.run args
  if completed.returncode = 0 then .ok (strip completed.stdout)
  else
    let detail := strip completed.stderr
    .error (.value (lit "git " ++ spaced args ++ lit " failed: "
      ++ if detail.isEmpty then strip completed.stdout else detail))

/-- `except ValueError`: no value. -/
def noneOnValue {α : Type} : Except Exn α → Except Exn (Option α)
  | .ok a => .ok (some a)
  | .error (.value _) => .ok none
  | .error e => .error e

theorem noneOnValue_some {α : Type} {x : Except Exn α} {a : α} (h : noneOnValue x = .ok (some a)) :
    x = .ok a := by
  unfold noneOnValue at h
  split at h
  · rw [Option.some.inj (Except.ok.inj h)]
  · exact absurd (Except.ok.inj h) (by simp)
  · exact absurd h (by simp)

theorem git_ok {args : List PyStr} {text : PyStr} (h : git G args = .ok text) :
    ∃ completed, G.run args = .ok completed ∧ completed.returncode = 0
      ∧ text = strip completed.stdout := by
  obtain ⟨completed, hrun, h⟩ := except_bind_ok.mp h
  split at h
  · next hcode => exact ⟨completed, hrun, hcode, (Except.ok.inj h).symm⟩
  · exact absurd h (by simp)

/-! ## Name-status records -/

/-- A rename or a copy has two paths. -/
def hasSource (status : PyStr) : Bool :=
  status.head? == some (cp 0x52) || status.head? == some (cp 0x43)

/-- The loop over the fields of `--name-status -z`: the paths of all records. -/
def nameStatusPaths (message : String) : List PyStr → Except Exn (List PyStr)
  | [] => .ok []
  | [_] => .error (valueError message)
  | [status, path] =>
    if status.isEmpty || hasSource status then .error (valueError message) else .ok [path]
  | status :: path :: next :: rest =>
    if status.isEmpty then .error (valueError message)
    else if hasSource status then (nameStatusPaths message rest).map ([path, next] ++ ·)
    else (nameStatusPaths message (next :: rest)).map ([path] ++ ·)

/-- The fields of a text that ends each of them with `"\0"`. -/
def nulFields (text : PyStr) : List PyStr := dropEmptyLast (splitAt nul text)

/-- `changed_paths`. -/
def changedPaths (G : Client) (start stop : PyStr) : Except Exn (List PyStr) := do
  let text ← git G [lit "diff", lit "-M", lit "--name-status", lit "-z", start ++ lit "..." ++ stop]
  let paths ← nameStatusPaths "git diff produced an invalid NUL name-status record" (nulFields text)
  .ok (sortedSet paths)

/-- `_commit_edge_paths`. -/
def commitEdgePaths (G : Client) (parent commit : PyStr) : Except Exn (List PyStr) := do
  let text ← git G [lit "diff", lit "-M", lit "--name-status", lit "-z", parent, commit, lit "--"]
  let paths ← nameStatusPaths "git diff produced an invalid commit-edge record" (nulFields text)
  .ok (sortedSet paths)

/-! ## A repository -/

/-- An object id in hexadecimal. -/
structure ObjectId where
  text : PyStr
  hex : (!text.isEmpty && text.all fun c =>
    (0x30 ≤ c.val && c.val ≤ 0x39) || (0x61 ≤ c.val && c.val ≤ 0x66)) = true
  deriving DecidableEq

theorem ObjectId.word (c : ObjectId) : Word c.text := by
  have hhex := c.hex
  rw [Bool.and_eq_true, List.all_eq_true] at hhex
  refine ⟨by simpa using hhex.1, fun d hd => ?_⟩
  have hdigit := hhex.2 d hd
  unfold isSpace
  simp only [Bool.or_eq_true, Bool.and_eq_true, decide_eq_true_eq] at hdigit
  simp only [Bool.or_eq_false_iff, Bool.and_eq_false_iff, decide_eq_false_iff_not,
    beq_eq_false_iff_ne,
    ne_eq]
  omega

/-- A history, and what the names of revisions stand for. -/
structure Repository (β : Type) where
  history : History ObjectId PyStr β
  /-- the commit or tree a name stands for -/
  rev : PyStr → Option ObjectId
  /-- the ancestors of what has a name are there, under their ids -/
  complete : ∀ name c a, rev name = some c → history.Ancestor a c → rev a.text = some a

/-- A record of `--name-status`. -/
structure ChangeRecord where
  status : PyStr
  source : Option PyStr
  path : PyStr
  letter : ∃ c rest, status = c :: rest ∧ isSpace c = false
  sourced : source.isSome = hasSource status
  clean : ∀ s ∈ status :: (source.toList ++ [path]), nul ∉ s

def ChangeRecord.paths (r : ChangeRecord) : List PyStr := r.source.toList ++ [r.path]

def ChangeRecord.fields (r : ChangeRecord) : List PyStr := r.status :: r.paths

/-- The reader gives back the paths of the records, whose statuses decide how many paths each
has. -/
theorem nameStatusPaths_fields (message : String) (records : List ChangeRecord) :
    nameStatusPaths message (records.flatMap ChangeRecord.fields)
      = .ok (records.flatMap ChangeRecord.paths) := by
  induction records with
  | nil => rfl
  | cons r records ih =>
    obtain ⟨status, source, path, ⟨c, rest, rfl, hc⟩, hsourced, hclean⟩ := r
    rw [List.flatMap_cons, List.flatMap_cons]
    generalize htail : records.flatMap ChangeRecord.fields = tail at ih
    cases source with
    | none =>
      have hone : hasSource (c :: rest) = false := hsourced.symm
      cases tail with
      | nil =>
        -- the last record
        have hnil : records.flatMap ChangeRecord.paths = [] := (Except.ok.inj ih).symm
        simp [ChangeRecord.fields, ChangeRecord.paths, nameStatusPaths, hone, hnil]
      | cons s tail =>
        simp [ChangeRecord.fields, ChangeRecord.paths, nameStatusPaths, hone, ih, Except.map]
    | some source =>
      have htwo : hasSource (c :: rest) = true := hsourced.symm
      simp [ChangeRecord.fields, ChangeRecord.paths, nameStatusPaths, htwo, ih, Except.map]

/-- The output of a diff in name-status form. -/
def nameStatusText (records : List ChangeRecord) : PyStr :=
  terminated nul (records.flatMap ChangeRecord.fields)

/-- The fields between the NULs are those of the records. -/
theorem nulFields_nameStatusText (records : List ChangeRecord) :
    nulFields (strip (nameStatusText records)) = records.flatMap ChangeRecord.fields := by
  have hclean : ∀ s ∈ records.flatMap ChangeRecord.fields, nul ∉ s := by
    intro s hs
    obtain ⟨r, -, hr⟩ := List.mem_flatMap.mp hs
    exact r.clean s hr
  have hstrip : strip (nameStatusText records) = nameStatusText records := by
    cases records with
    | nil => rfl
    | cons r records =>
      obtain ⟨c, rest, hstatus, hc⟩ := r.letter
      apply strip_trimmed
      constructor
      · refine ⟨c, rest ++ [nul] ++ terminated nul (r.paths ++ records.flatMap ChangeRecord.fields),
          ?_, hc⟩
        simp [nameStatusText, terminated, ChangeRecord.fields, hstatus]
      · obtain ⟨init, last, hlast⟩ : ∃ init last,
            (r :: records).flatMap ChangeRecord.fields = init ++ [last] := by
          rcases List.eq_nil_or_concat ((r :: records).flatMap ChangeRecord.fields) with hnil
            | ⟨i, l, h⟩
          · exact absurd hnil (by simp [ChangeRecord.fields])
          · exact ⟨i, l, by rw [h, List.concat_eq_append]⟩
        refine ⟨terminated nul init ++ last, nul, ?_, rfl⟩
        unfold nameStatusText
        rw [hlast]
        simp [terminated]
  unfold nulFields
  rw [hstrip, nameStatusText, splitAt_terminated hclean]
  unfold dropEmptyLast
  simp

/-- The client answers for this repository: what its commands leave when they succeed follows the
graph and the trees. -/
structure Follows {β : Type} (G : Client) (R : Repository β) : Prop where
  /-- `merge-base --is-ancestor` -/
  isAncestor : ∀ older newer done,
    G.run [lit "merge-base", lit "--is-ancestor", older, newer] = .ok done → done.returncode = 0 →
    ∃ a c, R.rev older = some a ∧ R.rev newer = some c ∧ R.history.Ancestor a c
  /-- `rev-list start..stop` lists the commits of the range -/
  range : ∀ start stop a c done, R.rev start = some a → R.rev stop = some c →
    G.run [lit "rev-list", lit "--reverse", lit "--topo-order", start ++ lit ".." ++ stop]
      = .ok done →
    done.returncode = 0 →
    ∃ ids : List ObjectId, done.stdout = terminated lf (ids.map ObjectId.text)
      ∧ ∀ id, id ∈ ids ↔ R.history.InRange a c id
  /-- `rev-list --parents -n 1` -/
  parents : ∀ name c done, R.rev name = some c →
    G.run [lit "rev-list", lit "--parents", lit "-n", lit "1", name] = .ok done →
      done.returncode = 0 →
    done.stdout = spaced ((c :: R.history.parents c).map ObjectId.text) ++ [lf]
  /-- the name-status of two trees lists the paths that differ -/
  edge : ∀ old new a c done, R.rev old = some a → R.rev new = some c →
    G.run [lit "diff", lit "-M", lit "--name-status", lit "-z", old, new, lit "--"] = .ok done →
    done.returncode = 0 →
    ∃ records : List ChangeRecord, done.stdout = nameStatusText records
      ∧ ∀ path, path ∈ records.flatMap ChangeRecord.paths
        ↔ R.history.tree a path ≠ R.history.tree c path

variable {β : Type} {R : Repository β}

/-- The paths of an edge are those its two trees do not agree on. -/
theorem commitEdgePaths_ok (hG : Follows G R) {old new : PyStr} {a c : ObjectId}
    {paths : List PyStr}
    (ha : R.rev old = some a) (hc : R.rev new = some c)
    (h : commitEdgePaths G old new = .ok paths) (path : PyStr) :
    path ∈ paths ↔ R.history.tree a path ≠ R.history.tree c path := by
  obtain ⟨text, htext, h⟩ := except_bind_ok.mp h
  obtain ⟨done, hrun, hcode, rfl⟩ := git_ok htext
  obtain ⟨records, hout, hpaths⟩ := hG.edge old new a c done ha hc hrun hcode
  obtain ⟨listed, hlisted, hsorted⟩ := except_bind_ok.mp h
  rw [hout, nulFields_nameStatusText, nameStatusPaths_fields] at hlisted
  obtain rfl := Except.ok.inj hlisted
  obtain rfl := Except.ok.inj hsorted
  rw [mem_sortedSet, hpaths]

/-- The row of a commit: its id and those of its parents. -/
theorem parents_ok (hG : Follows G R) {name text : PyStr} {c : ObjectId} (hc : R.rev name = some c)
    (h : git G [lit "rev-list", lit "--parents", lit "-n", lit "1", name] = .ok text) :
    words text = (c :: R.history.parents c).map ObjectId.text := by
  obtain ⟨done, hrun, hcode, rfl⟩ := git_ok h
  rw [hG.parents name c done hc hrun hcode]
  apply words_strip_spaced
  · intro s hs
    obtain ⟨id, -, rfl⟩ := List.mem_map.mp hs
    exact id.word
  · simp [lf, isSpace]
  · simp

/-- The commits of a range, in some order. -/
theorem range_ok (hG : Follows G R) {start stop text : PyStr} {a c : ObjectId}
    (ha : R.rev start = some a) (hc : R.rev stop = some c)
    (h : git G [lit "rev-list", lit "--reverse", lit "--topo-order", start ++ lit ".." ++ stop]
      = .ok text) :
    ∃ ids : List ObjectId, splitLines text = ids.map ObjectId.text
      ∧ ∀ id, id ∈ ids ↔ R.history.InRange a c id := by
  obtain ⟨done, hrun, hcode, rfl⟩ := git_ok h
  obtain ⟨ids, hout, hids⟩ := hG.range start stop a c done ha hc hrun hcode
  refine ⟨ids, ?_, hids⟩
  rw [hout]
  apply splitLines_strip_terminated
  intro s hs
  obtain ⟨id, -, rfl⟩ := List.mem_map.mp hs
  exact id.word

/-! ## Recorded answers -/

/-- The commands a recorded client knows, with what they left. -/
abbrev Recording := List (List PyStr × Completed)

def Recording.answer (recording : Recording) (args : List PyStr) : Except Exn Completed :=
  match recording.find? fun entry => entry.1 == args with
  | some entry => .ok entry.2
  | none => .error (.os .missing)

/-- A command that ended well with this output. -/
def done (out : PyStr) : Completed := ⟨0, out, []⟩

theorem Recording.answer_mem {recording : Recording} {args : List PyStr} {completed : Completed}
    (h : recording.answer args = .ok completed) : (args, completed) ∈ recording := by
  unfold Recording.answer at h
  split at h
  · next entry hfind =>
    obtain rfl := Except.ok.inj h
    have hargs : entry.1 = args := by simpa using List.find?_some hfind
    rw [← hargs]
    exact List.mem_of_find?_eq_some hfind
  · exact absurd h (by simp)

end SddGov.Git
