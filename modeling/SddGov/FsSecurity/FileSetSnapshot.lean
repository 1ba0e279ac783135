import SddGov.Python.Clock

/-!
# One file set

`FileSetSnapshot` reads files under one root, keeps them and the directories that lead
to them open, and compares all of it once more before it is left. Its promise is
that there was one moment at which every path led to the bytes that were read. A file
cannot change, or be moved, without a trace in its metadata, but a directory can be moved away and
back between two looks at it: two directories that are swapped before each look pass every
comparison though they were never there together (`swapped_directories_accepted`). Where no
directory is moved meanwhile, the moment before the comparisons is the one that was promised
(`snapshot_simultaneous`).
-/

namespace SddGov.FsSecurity

open SddGov.Python SddGov.Python.Clock

/-! ## A tree that others change -/

inductive Kind
  | regular
  | directory
  | symlink
  | other
  deriving DecidableEq

/-- `os.stat_result`, beside the device and the inode number. -/
structure Stat where
  kind : Kind
  permissions : Nat
  uid : Nat
  nlink : Nat
  size : Nat
  mtimeNs : Nat
  ctimeNs : Nat
  deriving DecidableEq

/-- The inodes at one moment: where the names in a directory lead, the metadata and the content. -/
structure World where
  entry : (directory : Nat) → (name : PyStr) → Option Nat
  stat : Nat → Stat
  content : Nat → Bytes

/-- What `_file_snapshot` returns. -/
structure Snapshot where
  inode : Nat
  kind : Kind
  permissions : Nat
  nlink : Nat
  size : Nat
  mtimeNs : Nat
  ctimeNs : Nat
  deriving DecidableEq

/-- `_file_snapshot` -/
def World.fileSnapshot (w : World) (inode : Nat) : Snapshot :=
  let m := w.stat inode
  ⟨inode, m.kind, m.permissions, m.nlink, m.size, m.mtimeNs, m.ctimeNs⟩

/-- The tree at every moment, whoever changes it. -/
structure History where
  world : Nat → World
  /-- no entry has an empty name -/
  named : ∀ t directory, (world t).entry directory [] = none
  kinds : ∀ inode s t, ((world s).stat inode).kind = ((world t).stat inode).kind
  /-- a file that is changed or renamed does not show its earlier metadata again -/
  changes : ∀ inode i j k, i ≤ j → j ≤ k → ((world i).stat inode).kind = .regular →
    (world k).fileSnapshot inode = (world i).fileSnapshot inode →
    (world j).content inode = (world i).content inode
      ∧ ∀ directory name, (world j).entry directory name = some inode ↔
        (world i).entry directory name = some inode

/-- Where a path leads from a directory. -/
def World.reach (w : World) : Nat → List PyStr → Option Nat
  | inode, [] => some inode
  | inode, part :: rest => (w.entry inode part).bind fun child => w.reach child rest

/-- A way is walked part by part. -/
theorem reach_append (w : World) (parts rest : List PyStr) :
    ∀ inode, w.reach inode (parts ++ rest) = (w.reach inode parts).bind fun child =>
    w.reach child rest := by
  induction parts with
  | nil =>
    intro inode
    rfl
  | cons part parts ih =>
    intro inode
    show (w.entry inode part).bind _ = ((w.entry inode part).bind _).bind _
    cases w.entry inode part with
    | none => rfl
    | some child => exact ih child

/-! ## The snapshot -/

/-- A `FileSetSnapshot` that has been entered. -/
structure FileSetSnapshot where
  history : History
  root : Nat
  rootIsDirectory : ∀ t, ((history.world t).stat root).kind = .directory
  label : PyStr
  requireProtected : Bool
  /-- `os.geteuid()` -/
  euid : Nat
  /-- `require_directory_path_identity` passes at this moment -/
  rootStands : Nat → Bool

/-- One value of `_records`. -/
structure Record where
  relative : List PyStr
  directories : List Nat
  file : Nat
  snapshot : Snapshot
  raw : Bytes
  maxBytes : Nat

variable (S : FileSetSnapshot)

def FileSetSnapshot.error (message : String) : Exn := .value (S.label ++ lit message)

/-- `os.stat(name, dir_fd=…, follow_symlinks=False)` -/
def FileSetSnapshot.statAt (directory : Nat) (name : PyStr) : Timed Snapshot :=
  call fun t =>
    (((S.history.world t).entry directory name).map (S.history.world t).fileSnapshot).elim
      (.error (.os .missing)) .ok

/-- `os.fstat` -/
def FileSetSnapshot.fstat (inode : Nat) : Timed (Snapshot × Stat) :=
  sample fun t => ((S.history.world t).fileSnapshot inode, (S.history.world t).stat inode)

/-- `os.open`, of what `opens` allows -/
def FileSetSnapshot.openAt (opens : Kind → Bool) (directory : Nat) (name : PyStr) : Timed Nat :=
  call fun t =>
    match (S.history.world t).entry directory name with
    | none => .error (.os .missing)
    | some inode => if opens ((S.history.world t).stat inode).kind then .ok inode else
        .error (.os .other)

/-- The directories on the way, after the one it starts from. -/
def FileSetSnapshot.openDirectories : Nat → List PyStr → Timed (List Nat)
  | _, [] => pure []
  | current, part :: rest => do
    let child ← S.openAt (· == .directory) current part
    let directories ← FileSetSnapshot.openDirectories child rest
    pure (child :: directories)

/-- `_bounded_read`; each turn takes at least one byte, so `fuel` past the bound is never used
up. -/
def FileSetSnapshot.boundedRead (file maxBytes : Nat) : Nat → Nat → Timed Bytes
  | 0, _ => raise (valueError "descriptor snapshot input exceeds the bounded size")
  | fuel + 1, total => do
    let chunk ← sample fun t =>
      (((S.history.world t).content file).drop total).take
        (min (1024 * 1024) (maxBytes + 1 - total))
    if chunk.isEmpty then pure []
    else do
      check (total + chunk.length ≤ maxBytes)
        (lit "descriptor snapshot input exceeds the bounded size")
      let rest ← FileSetSnapshot.boundedRead file maxBytes fuel (total + chunk.length)
      pure (chunk ++ rest)

/-- A part that no path may have; the first one also tells an absolute path. -/
def unsafePart (part : PyStr) : Bool :=
  part.isEmpty || part == lit "." || part == lit ".." || part == lit "/" || part.contains (cp 0x5C)
    || part.contains (cp 0x00)

/-- `os.open` of the file, and what is compared around the read. -/
def FileSetSnapshot.readRecord (relative : List PyStr) (maxBytes : Nat) : Timed Record := do
  let directories ← S.openDirectories S.root relative.dropLast
  let parent := directories.getLastD S.root
  let name := relative.getLastD []
  let file ← S.openAt (· != .symlink) parent name
  let before ← S.fstat file
  let pathBefore ← S.statAt parent name
  check (before.1.kind == .regular && before.1.nlink == 1 && before.1 == pathBefore
    && before.1.size ≤ maxBytes
      && (!S.requireProtected || (before.2.uid == S.euid && before.2.permissions.land 0o022 == 0)))
    (S.label ++ lit " file cannot be read safely")
  let raw ← S.boundedRead file maxBytes (maxBytes + 2) 0
  let after ← S.fstat file
  check (before.1 == after.1 && raw.length == before.1.size)
    (S.label ++ lit " file changed while being read")
  pure ⟨relative, S.root :: directories, file, before.1, raw, maxBytes⟩

/-- `except OSError` -/
def FileSetSnapshot.unreadable (message : String) : Exn → Exn
  | .os _ => S.error message
  | e => e

/-- `read`, with the records before and after it -/
def FileSetSnapshot.read (records : List Record) (relative : List PyStr) (maxBytes : Nat) :
    Timed (List Record × Bytes) := do
  check (!relative.any unsafePart) (S.label ++ lit " path is unsafe")
  match records.find? fun r => r.relative == relative with
  | some existing => do
    check (existing.raw.length ≤ maxBytes)
      (lit "descriptor snapshot input exceeds the bounded size")
    let bounded := records.map fun r =>
      if r.relative == relative then { r with maxBytes := min r.maxBytes maxBytes } else r
    pure (bounded, existing.raw)
  | none => do
    let record ← rethrow (S.unreadable " file cannot be opened safely")
      (S.readRecord relative maxBytes)
    pure (records ++ [record], record.raw)

/-- The directories of a record, each still under its name. -/
def FileSetSnapshot.checkDirectories : List PyStr → List Nat → Timed Unit
  | part :: parts, directory :: child :: rest => do
    let current ← S.statAt directory part
    let opened ← S.fstat child
    check (current.kind == .directory && current.inode == opened.1.inode)
      (S.label ++ lit " directory set changed during operation")
    FileSetSnapshot.checkDirectories parts (child :: rest)
  | _, _ => pure ()

/-- One turn of `revalidate` -/
def FileSetSnapshot.revalidateRecord (r : Record) : Timed Unit := do
  let raw ← S.boundedRead r.file r.maxBytes (r.maxBytes + 2) 0
  let currentFile ← S.fstat r.file
  let currentPath ← S.statAt (r.directories.getLastD S.root) (r.relative.getLastD [])
  check (raw == r.raw && currentFile.1 == r.snapshot && currentPath == r.snapshot)
    (S.label ++ lit " file set changed during operation")
  S.checkDirectories r.relative.dropLast r.directories

/-- `revalidate` -/
def FileSetSnapshot.revalidate (records : List Record) : Timed Unit := do
  let _ ← each (fun r => rethrow (S.unreadable " file set changed during operation")
    (S.revalidateRecord r)) records
  let stands ← sample S.rootStands
  check stands (S.label ++ lit " changed during operation")

/-- The reads of a caller, in their order, and what each returned. -/
def FileSetSnapshot.readEach : List Record → List (List PyStr × Nat) →
    Timed (List Record × List (List PyStr × Bytes))
  | records, [] => pure (records, [])
  | records, request :: requests => do
    let first ← S.read records request.1 request.2
    let rest ← FileSetSnapshot.readEach first.1 requests
    pure (rest.1, (request.1, first.2) :: rest.2)

/-- `with FileSetSnapshot(…) as snapshot`, for a caller that makes these reads. -/
def FileSetSnapshot.session (requests : List (List PyStr × Nat)) :
    Timed (List (List PyStr × Bytes)) := do
  let reads ← S.readEach [] requests
  S.revalidate reads.1
  pure reads.2

/-- At this moment every path leads from the root to the bytes that were read. -/
def FileSetSnapshot.HoldsAt (reads : List (List PyStr × Bytes)) (t : Nat) : Prop :=
  ∀ read ∈ reads, ∃ inode,
    (S.history.world t).reach S.root read.1 = some inode
      ∧ (S.history.world t).content inode = read.2

/-- A step of the others that moves no directory on the way to a requested file: where
a part of the way leads to a directory, it leads there after the step. -/
def FileSetSnapshot.KeepsWays (requests : List (List PyStr × Nat)) (t : Nat) : Prop :=
  ∀ request ∈ requests, ∀ way, way <+: request.1.dropLast → ∀ inode,
    (S.history.world t).reach S.root way = some inode →
      ((S.history.world t).stat inode).kind = .directory →
    (S.history.world (t + 1)).reach S.root way = some inode

/-! ## Directories that stay -/

variable {S} {T : Nat}

/-- The part of a way that led to a directory still leads there. -/
theorem reach_kept {requests : List (List PyStr × Nat)} {s : Nat}
    (hkeep : ∀ t, s ≤ t → t < T → S.KeepsWays requests t) (hsT : s ≤ T) {request : List PyStr × Nat}
    (hrequest : request ∈ requests) {way : List PyStr} (hway : way <+: request.1.dropLast)
    {inode : Nat}
    (hreach : (S.history.world s).reach S.root way = some inode)
    (hkind : ((S.history.world s).stat inode).kind = .directory) :
    (S.history.world T).reach S.root way = some inode := by
  induction T, hsT using Nat.le_induction with
  | base => exact hreach
  | succ t hst ih =>
    have hnow := ih fun t' hs hlt => hkeep t' hs (Nat.lt_succ_of_lt hlt)
    have hstill : ((S.history.world t).stat inode).kind = .directory := by
      rw [S.history.kinds inode t s]
      exact hkind
    exact hkeep t hst (Nat.lt_succ_self t) request hrequest way hway inode hnow hstill

/-- Opening gives what the directory has under the name at that time. -/
theorem openAt_ok {opens : Kind → Bool} {directory t u : Nat} {name : PyStr} {inode : Nat}
    (h : (S.openAt opens directory name).run t = (.ok inode, u)) :
    (S.history.world t).entry directory name = some inode
      ∧ opens ((S.history.world t).stat inode).kind = true ∧ t + 1 = u := by
  obtain ⟨hfound, rfl⟩ := call_ok.mp h
  split at hfound
  · simp at hfound
  · next found hentry =>
    split at hfound
    · next hopens =>
      obtain rfl := Except.ok.inj hfound
      exact ⟨hentry, hopens, rfl⟩
    · simp at hfound

theorem statAt_ok {directory t u : Nat} {name : PyStr} {m : Snapshot}
    (h : (S.statAt directory name).run t = (.ok m, u)) :
    ∃ inode, (S.history.world t).entry directory name = some inode
      ∧ (S.history.world t).fileSnapshot inode = m ∧ t + 1 = u := by
  obtain ⟨hfound, rfl⟩ := call_ok.mp h
  cases hentry : (S.history.world t).entry directory name with
  | none => simp [hentry] at hfound
  | some inode => exact ⟨inode, rfl, by simpa [hentry] using hfound, rfl⟩

/-- The directories that have been opened are still the way. -/
theorem openDirectories_ok {requests : List (List PyStr × Nat)} {request : List PyStr × Nat}
    (hrequest : request ∈ requests) :
    ∀ {parts before : List PyStr} {current t u : Nat} {directories : List Nat},
    (S.openDirectories current parts).run t = (.ok directories, u) →
      (∀ s, t ≤ s → s < T → S.KeepsWays requests s) → u ≤ T → request.1.dropLast = before ++ parts →
      (S.history.world t).reach S.root before = some current →
      ((S.history.world t).stat current).kind = .directory →
      (S.history.world T).reach S.root request.1.dropLast = some (directories.getLastD current)
  | [], before, current, t, u, directories, h, hkeep, hT, hsplit, hreach, hkind => by
    obtain ⟨rfl, rfl⟩ := timed_pure_ok.mp h
    rw [List.append_nil] at hsplit
    rw [← hsplit] at hreach
    exact reach_kept hkeep hT hrequest (List.prefix_refl _) hreach hkind
  | part :: rest, before, current, t, u, directories, h, hkeep, hT, hsplit, hreach, _ => by
    obtain ⟨child, s, hopen, h⟩ := timed_bind_ok.mp h
    obtain ⟨children, s', hchildren, h⟩ := timed_bind_ok.mp h
    obtain ⟨rfl, rfl⟩ := timed_pure_ok.mp h
    obtain ⟨hentry, hopens, rfl⟩ := openAt_ok hopen
    have hlater := Timed.le hchildren
    have hkind : ((S.history.world t).stat child).kind = .directory := by simpa using hopens
    have hsplit' : request.1.dropLast = (before ++ [part]) ++ rest := by
      rw [hsplit, List.append_assoc]
      rfl
    have hchild : (S.history.world t).reach S.root (before ++ [part]) = some child := by
      rw [reach_append, hreach, Option.bind_some]
      show ((S.history.world t).entry current part).bind _ = _
      rw [hentry]
      rfl
    have hstep := hkeep t (Nat.le_refl t) (by omega) request hrequest _
      ⟨rest, hsplit'.symm⟩ child hchild hkind
    have hkind' : ((S.history.world (t + 1)).stat child).kind = .directory := by
      rw [S.history.kinds child (t + 1) t]
      exact hkind
    rw [List.getLastD_cons]
    exact openDirectories_ok hrequest hchildren (fun s hs hlt => hkeep s (by omega) hlt) hT hsplit'
      hstep hkind'

/-! ## Reads -/

/-- The chunks of a content that stays make it up. -/
theorem boundedRead_fixed {file maxBytes : Nat} {c : Bytes} :
    ∀ {fuel total t u : Nat} {data : Bytes},
    (S.boundedRead file maxBytes fuel total).run t = (.ok data, u) → total ≤ maxBytes →
      (∀ j, t ≤ j → j ≤ u → (S.history.world j).content file = c) → data = c.drop total
  | 0, _, _, _, _, h, _, _ => absurd h raise_ok
  | fuel + 1, total, t, u, data, h, hbound, hc => by
    have hforward := Timed.le h
    obtain ⟨chunk, s, hchunk, h⟩ := timed_bind_ok.mp h
    obtain ⟨hread, rfl⟩ := sample_ok.mp hchunk
    rw [hc t (Nat.le_refl _) hforward] at hread
    split at h
    · next hempty =>
      obtain ⟨rfl, rfl⟩ := timed_pure_ok.mp h
      have hnone := hread.trans (List.isEmpty_iff.mp hempty)
      rcases List.take_eq_nil_iff.mp hnone with hzero | hnil
      · omega
      · exact hnil.symm
    · obtain ⟨_, _, hrun, h⟩ := timed_bind_ok.mp h
      obtain ⟨hmore, rfl⟩ := check_ok.mp hrun
      obtain ⟨rest, s, hrest, h⟩ := timed_bind_ok.mp h
      obtain ⟨rfl, rfl⟩ := timed_pure_ok.mp h
      have hdata := boundedRead_fixed hrest (by simpa using hmore) fun j hj hu => hc j (by omega) hu
      rw [hdata, ← List.drop_drop, ← hread, List.length_take]
      generalize min (1024 * 1024) (maxBytes + 1 - total) = size
      -- a chunk is full, or it is the last one before the empty one
      by_cases hlong : size ≤ (c.drop total).length
      · rw [Nat.min_eq_left hlong]
        exact List.take_append_drop size (c.drop total)
      · rw [Nat.min_eq_right (by omega), List.drop_of_length_le (Nat.le_refl _),
          List.take_of_length_le (by omega), List.append_nil]

variable (S T) in
/-- If the file shows its metadata again after `T`, then at `T` the path led to it and
it held what was read. -/
def WasRead (r : Record) : Prop :=
  ∀ v, T ≤ v → (S.history.world v).fileSnapshot r.file = r.snapshot →
    (S.history.world T).reach S.root r.relative = some r.file
      ∧ (S.history.world T).content r.file = r.raw

/-- A record that is read was there while it was read, with the bytes that were returned, provided
that the ways to the requested files are kept. -/
theorem readRecord_ok {requests : List (List PyStr × Nat)} {relative : List PyStr}
    {maxBytes t u : Nat} {r : Record}
    (h : (S.readRecord relative maxBytes).run t = (.ok r, u))
    (hrequest : (relative, maxBytes) ∈ requests)
    (hkeep : ∀ s, t ≤ s → s < T → S.KeepsWays requests s) (hT : u ≤ T) :
    WasRead S T r ∧ r.relative = relative := by
  obtain ⟨directories, s, hdirectories, h⟩ := timed_bind_ok.mp h
  obtain ⟨file, _, hrun, h⟩ := timed_bind_ok.mp h
  obtain ⟨hopened, -, rfl⟩ := openAt_ok hrun
  obtain ⟨before, _, hrun, h⟩ := timed_bind_ok.mp h
  obtain ⟨rfl, rfl⟩ := sample_ok.mp hrun
  obtain ⟨pathBefore, _, hrun, h⟩ := timed_bind_ok.mp h
  obtain ⟨found, hfound, rfl, rfl⟩ := statAt_ok hrun
  obtain ⟨_, _, hrun, h⟩ := timed_bind_ok.mp h
  obtain ⟨hsafe, rfl⟩ := check_ok.mp hrun
  obtain ⟨raw, w, hraw, h⟩ := timed_bind_ok.mp h
  obtain ⟨after, _, hrun, h⟩ := timed_bind_ok.mp h
  obtain ⟨rfl, rfl⟩ := sample_ok.mp hrun
  obtain ⟨_, _, hrun, h⟩ := timed_bind_ok.mp h
  obtain ⟨-, rfl⟩ := check_ok.mp hrun
  obtain ⟨rfl, rfl⟩ := timed_pure_ok.mp h
  simp only [Bool.and_eq_true, beq_iff_eq] at hsafe
  obtain ⟨⟨⟨⟨hregular, -⟩, hpath⟩, -⟩, -⟩ := hsafe
  obtain rfl : file = found := congrArg Snapshot.inode hpath
  have hread := Timed.le hraw
  have hway := openDirectories_ok (T := T) hrequest hdirectories hkeep (by omega)
    (List.nil_append _).symm rfl
    (S.rootIsDirectory t)
  refine ⟨?_, rfl⟩
  intro v hv hsame
  -- from the first look at the file to `v` nothing about it has changed
  have hfixed : ∀ j, s + 1 ≤ j → j ≤ v → _ := fun j hj hjv =>
    S.history.changes file (s + 1) j v hj hjv hregular hsame
  have hname := (hfixed T (by omega) hv).2 _ _ |>.mpr
    ((hfixed (s + 1 + 1) (by omega) (by omega)).2 _ _ |>.mp hfound)
  constructor
  · have hne : relative ≠ [] := by
      rintro rfl
      have hnone := S.history.named s (directories.getLastD S.root)
      rw [show ([] : List PyStr).getLastD [] = [] from rfl, hnone] at hopened
      simp at hopened
    have hparts : relative = relative.dropLast ++ [relative.getLastD []] := by
      rw [List.getLastD_eq_getLast?, List.getLast?_eq_some_getLast hne, Option.getD_some]
      exact (List.dropLast_append_getLast hne).symm
    rw [show (S.history.world T).reach S.root relative
        = (S.history.world T).reach S.root (relative.dropLast
          ++ [relative.getLastD []]) from congrArg _ hparts,
      reach_append, hway, Option.bind_some]
    show ((S.history.world T).entry _ _).bind _ = _
    rw [hname]
    rfl
  · rw [(hfixed T (by omega) hv).1]
    have hdata := boundedRead_fixed hraw (Nat.zero_le _) fun j hj hu =>
      (hfixed j (by omega) (by omega)).1
    rw [hdata, List.drop_zero]

/-- The record of a read is kept, and so are those before it. -/
theorem read_ok {requests : List (List PyStr × Nat)} {records : List Record} {relative : List PyStr}
    {maxBytes t u : Nat} {result : List Record × Bytes}
    (h : (S.read records relative maxBytes).run t = (.ok result, u))
    (hrequest : (relative, maxBytes) ∈ requests)
    (hkeep : ∀ s, t ≤ s → s < T → S.KeepsWays requests s) (hT : u ≤ T)
    (hrecords : ∀ r ∈ records, WasRead S T r) :
    (∀ r ∈ result.1, WasRead S T r) ∧ (∃ r ∈ result.1, r.relative = relative ∧ r.raw = result.2)
      ∧ ∀ r ∈ records, ∃ r' ∈ result.1, r'.relative = r.relative ∧ r'.raw = r.raw := by
  obtain ⟨_, _, hrun, h⟩ := timed_bind_ok.mp h
  obtain ⟨-, rfl⟩ := check_ok.mp hrun
  split at h
  · next existing hexisting =>
    obtain ⟨_, _, hrun, h⟩ := timed_bind_ok.mp h
    obtain ⟨-, rfl⟩ := check_ok.mp hrun
    obtain ⟨rfl, rfl⟩ := timed_pure_ok.mp h
    -- only the bound of a record is lowered
    have hkept : ∀ r ∈ records, ∃ r' ∈ records.map (fun r =>
        if r.relative == relative then { r with maxBytes := min r.maxBytes maxBytes } else r),
        r'.relative = r.relative ∧ r'.raw = r.raw := by
      intro r hr
      refine ⟨_, List.mem_map_of_mem hr, ?_⟩
      split <;> exact ⟨rfl, rfl⟩
    refine ⟨?_, ?_, hkept⟩
    · intro r' hr'
      obtain ⟨r, hr, rfl⟩ := List.mem_map.mp hr'
      have hwas := hrecords r hr
      split
      · exact hwas
      · exact hwas
    · obtain ⟨r', hr', hrelative, hraw⟩ := hkept existing (List.mem_of_find?_eq_some hexisting)
      have hsame : existing.relative = relative := by simpa using List.find?_some hexisting
      exact ⟨r', hr', hrelative.trans hsame, hraw⟩
  · obtain ⟨record, s, hrecord, h⟩ := timed_bind_ok.mp h
    obtain ⟨rfl, rfl⟩ := timed_pure_ok.mp h
    obtain ⟨hwas, hrelative⟩ := readRecord_ok (rethrow_ok.mp hrecord) hrequest hkeep hT
    refine ⟨?_, ⟨record, List.mem_concat_self, hrelative, rfl⟩, ?_⟩
    · intro r hr
      rcases List.mem_append.mp hr with hr | hr
      · exact hrecords r hr
      · obtain rfl := List.mem_singleton.mp hr
        exact hwas
    · intro r hr
      exact ⟨r, List.mem_append_left _ hr, rfl, rfl⟩

/-- Every read of a caller has a record at the end. -/
theorem readEach_ok {all : List (List PyStr × Nat)} :
    ∀ {requests : List (List PyStr × Nat)} {records : List Record}
    {t u : Nat} {result : List Record × List (List PyStr × Bytes)},
    (S.readEach records requests).run t = (.ok result, u) → requests ⊆ all →
      (∀ s, t ≤ s → s < T → S.KeepsWays all s) → u ≤ T → (∀ r ∈ records, WasRead S T r) →
      (∀ r ∈ result.1, WasRead S T r)
        ∧ (∀ read ∈ result.2, ∃ r ∈ result.1, r.relative = read.1 ∧ r.raw = read.2)
        ∧ ∀ r ∈ records, ∃ r' ∈ result.1, r'.relative = r.relative ∧ r'.raw = r.raw
  | [], records, t, u, result, h, _, _, _, hrecords => by
    obtain ⟨rfl, -⟩ := timed_pure_ok.mp h
    exact ⟨hrecords, by simp, fun r hr => ⟨r, hr, rfl, rfl⟩⟩
  | request :: requests, records, t, u, result, h, hsub, hkeep, hT, hrecords => by
    obtain ⟨first, s, hfirst, h⟩ := timed_bind_ok.mp h
    obtain ⟨rest, s', hrest, h⟩ := timed_bind_ok.mp h
    obtain ⟨rfl, rfl⟩ := timed_pure_ok.mp h
    have hlater := Timed.le hfirst
    have hend := Timed.le hrest
    obtain ⟨hfirst', hrest'⟩ := List.cons_subset.mp hsub
    obtain ⟨hwas, hread, hkept⟩ := read_ok hfirst hfirst' hkeep (by omega) hrecords
    obtain ⟨hall, hreads, hkept'⟩ := readEach_ok hrest hrest'
      (fun s hs hlt => hkeep s (by omega) hlt) hT hwas
    refine ⟨hall, ?_, ?_⟩
    · intro read hmem
      rcases List.mem_cons.mp hmem with rfl | hmem
      · obtain ⟨r, hr, hrelative, hraw⟩ := hread
        obtain ⟨r', hr', hrelative', hraw'⟩ := hkept' r hr
        exact ⟨r', hr', hrelative'.trans hrelative, hraw'.trans hraw⟩
      · exact hreads read hmem
    · intro r hr
      obtain ⟨r', hr', hrelative, hraw⟩ := hkept r hr
      obtain ⟨r'', hr'', hrelative', hraw'⟩ := hkept' r' hr'
      exact ⟨r'', hr'', hrelative'.trans hrelative, hraw'.trans hraw⟩

/-- A record that passes shows its metadata once more. -/
theorem revalidateRecord_ok {r : Record} {t u : Nat} {a : Unit}
    (h : (S.revalidateRecord r).run t = (.ok a, u)) :
    ∃ v, t ≤ v ∧ (S.history.world v).fileSnapshot r.file = r.snapshot := by
  obtain ⟨raw, s, hraw, h⟩ := timed_bind_ok.mp h
  obtain ⟨current, _, hrun, h⟩ := timed_bind_ok.mp h
  obtain ⟨rfl, rfl⟩ := sample_ok.mp hrun
  obtain ⟨path, _, -, h⟩ := timed_bind_ok.mp h
  obtain ⟨_, _, hrun, h⟩ := timed_bind_ok.mp h
  obtain ⟨hsame, rfl⟩ := check_ok.mp hrun
  simp only [Bool.and_eq_true, beq_iff_eq] at hsame
  exact ⟨s, Timed.le hraw, hsame.1.2⟩

/-- Each record was looked at again, at a time of its own. -/
theorem revalidate_ok {records : List Record} {t u : Nat} {a : Unit}
    (h : (S.revalidate records).run t = (.ok a, u)) :
    ∀ r ∈ records, ∃ v, t ≤ v ∧ (S.history.world v).fileSnapshot r.file = r.snapshot := by
  obtain ⟨done, s, hdone, -⟩ := timed_bind_ok.mp h
  have hall := each_ok hdone
  clear hdone h
  induction hall with
  | nil => simp
  | cons hround _ ih =>
    intro r hr
    rcases List.mem_cons.mp hr with rfl | hr
    · obtain ⟨v, w, hv, -, hrun⟩ := hround
      obtain ⟨v', hv', hsame⟩ := revalidateRecord_ok (rethrow_ok.mp hrun)
      exact ⟨v', Nat.le_trans hv hv', hsame⟩
    · exact ih r hr

/-- Where no step moves a directory on the way to a requested file while the snapshot is
open, the files that were read were there together. -/
theorem snapshot_simultaneous {requests : List (List PyStr × Nat)} {t u : Nat}
    {reads : List (List PyStr × Bytes)}
    (h : (S.session requests).run t = (.ok reads, u))
    (hkeep : ∀ s, t ≤ s → s < u → S.KeepsWays requests s) :
    ∃ v, t ≤ v ∧ v ≤ u ∧ S.HoldsAt reads v := by
  obtain ⟨found, v, hfound, h⟩ := timed_bind_ok.mp h
  obtain ⟨_, w, hcheck, h⟩ := timed_bind_ok.mp h
  obtain ⟨rfl, rfl⟩ := timed_pure_ok.mp h
  have hstart := Timed.le hfound
  have hend := Timed.le hcheck
  obtain ⟨hwas, hreads, -⟩ := readEach_ok hfound (List.Subset.refl requests)
    (fun s hs hlt => hkeep s hs (by omega)) (Nat.le_refl v) (by simp)
  refine ⟨v, hstart, hend, ?_⟩
  intro read hread
  obtain ⟨r, hr, hrelative, hraw⟩ := hreads read hread
  obtain ⟨v', hv', hsame⟩ := revalidate_ok hcheck r hr
  obtain ⟨hreach, hcontent⟩ := hwas r hr v' hv' hsame
  exact ⟨r.file, hrelative ▸ hreach, hraw ▸ hcontent⟩

/-! ## Two directories -/

/-- One file in `a`, one in `b`, which are inodes 1 and 2; `away` is where a directory
is while it is not under its name. -/
def twoDirectories (aThere bThere : Bool) : World where
  entry directory name :=
    if directory = 0 then
      if name = lit "a" then if aThere then some 1 else none
      else if name = lit "b" then if bThere then some 2 else none
      else if name = lit "away" then if aThere then if bThere then none else some 2 else some 1
      else none
    else if directory = 1 ∧ name = lit "x" then some 3
    else if directory = 2 ∧ name = lit "y" then some 4
    else none
  stat inode := ⟨if inode < 3 then .directory else .regular, 0o644, 0, 1, 1, 0, 0⟩
  content inode := if inode = 3 then [byte 0x78] else [byte 0x79]

/-- Moving a directory leaves the files in it as they are. -/
theorem twoDirectories_file {inode : Nat} (h : ((twoDirectories true true).stat inode).kind
    = .regular)
    (aThere bThere aThere' bThere' : Bool) (directory : Nat) (name : PyStr) :
    (twoDirectories aThere bThere).entry directory name = some inode
      ↔ (twoDirectories aThere' bThere').entry directory name = some inode := by
  have hfile : 3 ≤ inode := by
    by_cases hlt : inode < 3
    · simp [twoDirectories, hlt] at h
    · omega
  by_cases hroot : directory = 0
  · have hnot : ∀ p q, (twoDirectories p q).entry directory name ≠ some inode := by
      intro p q
      simp only [twoDirectories, hroot, if_true]
      split
      · cases p <;> simp; omega
      · split
        · cases q <;> simp; omega
        · split
          · cases p <;> cases q <;> simp <;> omega
          · simp
    simp [hnot]
  · simp [twoDirectories, hroot]

/-- The tree where `a` and `b` are under their names at these moments. -/
def moving (aThere bThere : Nat → Bool) : History where
  world t := twoDirectories (aThere t) (bThere t)
  named t directory := by
    have hnames : [] ≠ lit "a" ∧ [] ≠ lit "b" ∧ [] ≠ lit "away" ∧ [] ≠ lit "x"
      ∧ [] ≠ lit "y" := by decide
    simp [twoDirectories, hnames]
  kinds _ _ _ := rfl
  changes inode i j k _ _ hregular _ := ⟨rfl, twoDirectories_file hregular _ _ _ _⟩

/-- A snapshot of a tree. -/
def snapshotOf (history : History) (h : ∀ t, ((history.world t).stat 0).kind = .directory) :
    FileSetSnapshot where
  history := history
  root := 0
  rootIsDirectory := h
  label := lit "sample"
  requireProtected := false
  euid := 0
  rootStands _ := true

def sampleRequests : List (List PyStr × Nat) := [([lit "a", lit "x"], 1), ([lit "b", lit "y"], 1)]

/-- The name of the directory that others move. -/
def carried (t : Nat) : PyStr := if t % 2 = 0 then lit "c" else lit "away"

theorem carried_cases (t : Nat) : carried t = lit "c" ∨ carried t = lit "away" := by
  unfold carried
  split
  · exact .inl rfl
  · exact .inr rfl

/-- Beside `a` and `b`, others move a directory back and forth with every step, and write to the
file in it. -/
def busyTree (t : Nat) : World where
  entry directory name :=
    if directory = 0 ∧ name = carried t then some 5
    else if directory = 5 ∧ name = lit "log" then some 6
    else (twoDirectories true true).entry directory name
  stat inode :=
    if inode = 5 then ⟨.directory, 0o755, 0, 1, 1, t, t⟩
    else if inode = 6 then ⟨.regular, 0o644, 0, 1, t, t, t⟩
    else (twoDirectories true true).stat inode
  content inode := if inode = 6 then List.replicate t (byte 0x7A) else
    (twoDirectories true true).content inode

/-- No file but the one that is written to is ever under another name. -/
theorem busyTree_file {inode : Nat} (hmoved : inode ≠ 5) (hwritten : inode ≠ 6) (t directory : Nat)
    (name : PyStr) :
    (busyTree t).entry directory name = some inode ↔
    (twoDirectories true true).entry directory name = some inode := by
  have hapart : lit "c" ≠ lit "a" ∧ lit "c" ≠ lit "b" ∧ lit "c" ≠ lit "away" ∧ lit "away" ≠ lit "a"
      ∧ lit "away" ≠ lit "b" := by decide
  unfold busyTree
  dsimp only
  split
  · next hroot =>
    obtain ⟨rfl, rfl⟩ := hroot
    rcases carried_cases t with heq | heq
    · simp [heq, twoDirectories, hapart, Ne.symm hmoved]
    · simp [heq, twoDirectories, hapart, Ne.symm hmoved]
  · split
    · next hlog =>
      obtain ⟨rfl, rfl⟩ := hlog
      simp [twoDirectories, Ne.symm hwritten]
    · exact Iff.rfl

def busy : History where
  world := busyTree
  named t directory := by
    have hnames : [] ≠ lit "a" ∧ [] ≠ lit "b" ∧ [] ≠ lit "away" ∧ [] ≠ lit "x" ∧ [] ≠ lit "y"
      ∧ [] ≠ lit "c"
      ∧ [] ≠ lit "log" := by decide
    have hcarried : [] ≠ carried t := by
      rcases carried_cases t with heq | heq
      · rw [heq]
        exact hnames.2.2.2.2.2.1
      · rw [heq]
        exact hnames.2.2.1
    simp [busyTree, twoDirectories, hnames, hcarried]
  kinds inode s t := by
    unfold busyTree
    dsimp only
    split
    · rfl
    · split <;> rfl
  changes inode i j k hij hjk hregular hsame := by
    by_cases hmoved : inode = 5
    · subst hmoved
      exact absurd hregular (by simp [busyTree])
    · by_cases hwritten : inode = 6
      · subst hwritten
        -- the size is the moment, so the metadata come back at no other one
        have hk : k = i := by simpa [World.fileSnapshot, busyTree] using hsame
        obtain rfl : j = i := by omega
        simp
      · refine ⟨by simp [busyTree, hwritten], fun directory name => ?_⟩
        rw [busyTree_file hmoved hwritten, busyTree_file hmoved hwritten]

/-- The directories of the two files stay where they are. -/
theorem busy_keepsWays (t : Nat) : (snapshotOf busy fun _ => rfl).KeepsWays sampleRequests t := by
  have hstays (s : Nat) : (busyTree s).reach 0 [lit "a"] = some 1
    ∧ (busyTree s).reach 0 [lit "b"] = some 2 := by
    have hmoved : lit "a" ≠ carried s ∧ lit "b" ≠ carried s := by
      rcases carried_cases s with heq | heq
      · rw [heq]
        decide
      · rw [heq]
        decide
    have hother : lit "b" ≠ lit "a" := by decide
    simp [World.reach, busyTree, twoDirectories, hmoved, hother]
  have hway {name : PyStr} {inode s : Nat} {way : List PyStr} (hway : way <+: [name])
      (hnow : (busyTree t).reach 0 way = some inode)
      (hname : (busyTree s).reach 0 [name] = (busyTree t).reach 0 [name]) :
      (busyTree s).reach 0 way = some inode := by
    rcases List.prefix_cons_iff.mp hway with rfl | ⟨rest, rfl, hrest⟩
    · exact hnow
    · obtain rfl := List.prefix_nil.mp hrest
      rw [hname, hnow]
  intro request hrequest way hprefix inode hnow _
  simp only [sampleRequests, List.mem_cons, List.not_mem_nil, or_false] at hrequest
  rcases hrequest with rfl | rfl
  · exact hway hprefix hnow ((hstays (t + 1)).1.trans (hstays t).1.symm)
  · exact hway hprefix hnow ((hstays (t + 1)).2.trans (hstays t).2.symm)

/-- Others move and write what was not asked for, meanwhile. -/
theorem snapshot_simultaneous_sample : ∃ reads u,
    ((snapshotOf busy fun _ => rfl).session sampleRequests).run 0 = (.ok reads, u)
      ∧ ∃ v, 0 ≤ v ∧ v ≤ u ∧ (snapshotOf busy fun _ => rfl).HoldsAt reads v := by
  generalize hrun : ((snapshotOf busy fun _ => rfl).session sampleRequests).run 0 = run
  have hok : run.1.isOk = true := by
    rw [← hrun]
    decide +kernel
  obtain ⟨reads, hreads⟩ := exists_of_isOk hok
  obtain ⟨result, u⟩ := run
  obtain rfl : result = .ok reads := hreads
  exact ⟨reads, u, rfl, snapshot_simultaneous hrun fun s _ _ => busy_keepsWays s⟩

/-- `a` is there while it is looked at, at each of the two times. -/
def whileLookedAt (t : Nat) : Bool := t < 7 || (14 ≤ t && t < 20)

/-- Each directory is under its name only while it is looked at: what is read is accepted, but
at no moment were both files there. -/
theorem swapped_directories_accepted : ∃ reads u,
    ((snapshotOf (moving whileLookedAt fun t => !whileLookedAt t) fun _ => rfl).session
      sampleRequests).run 0 = (.ok reads, u)
      ∧ ¬ ∃ v, (snapshotOf (moving whileLookedAt fun t => !whileLookedAt t) fun _ => rfl).HoldsAt
        reads v := by
  refine ⟨[([lit "a", lit "x"], [byte 0x78]), ([lit "b", lit "y"], [byte 0x79])], 27, ?_, ?_⟩
  · rfl
  · rintro ⟨v, hholds⟩
    obtain ⟨x, hx, -⟩ := hholds ([lit "a", lit "x"], [byte 0x78]) (by simp)
    obtain ⟨y, hy, -⟩ := hholds ([lit "b", lit "y"], [byte 0x79]) (by simp)
    have hnames : lit "b" ≠ lit "a" := by decide
    cases hnow : whileLookedAt v
    · simp [snapshotOf, moving, twoDirectories, World.reach, hnow] at hx
    · simp [snapshotOf, moving, twoDirectories, World.reach, hnow, hnames] at hy

end SddGov.FsSecurity
