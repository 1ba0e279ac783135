import SddGov.Python.Crypto
import SddGov.Python.Clock

/-!
# Files that change while they are read

A release input is opened once and then read in several passes, and others may
change or replace it at any moment. A file is its content and its metadata at each
moment, and no change leaves the metadata as it was. A pass compares the metadata with
that of the opening before and after it reads, so what it has read is the content at the
opening (`pass_ok`).
-/

namespace SddGov.Release

open SddGov.Python SddGov.Python.Clock

/-! ## Files -/

/-- `os.stat_result` -/
structure Metadata where
  dev : Nat
  ino : Nat
  size : Nat
  mtimeNs : Nat
  ctimeNs : Nat
  nlink : Nat
  isRegular : Bool
  deriving DecidableEq

/-- `_identity` -/
def Metadata.identity (m : Metadata) : Nat × Nat × Nat × Nat × Nat × Nat :=
  (m.dev, m.ino, m.size, m.mtimeNs, m.ctimeNs, m.nlink)

/-- A file that others may change, by what a descriptor of it shows at each moment. -/
structure TimedFile where
  content : Nat → Bytes
  metadata : Nat → Metadata
  /-- a change alters the metadata recorded before it, for good: the time of the last
  change cannot be set back -/
  changes : ∀ i j k, i ≤ j → j ≤ k → (metadata k).identity = (metadata i).identity →
    content j = content i

/-- `OpenedRegularFile`: the file, what is found under its name at each moment, and
when `initial_metadata` was taken. -/
structure OpenedFile where
  path : PyStr
  name : PyStr
  label : PyStr
  file : TimedFile
  named : Nat → Except Exn Metadata
  opened : Nat

/-- `initial_metadata` -/
def OpenedFile.initial (f : OpenedFile) : Metadata := f.file.metadata f.opened

/-- The content at the opening. -/
def OpenedFile.bytes (f : OpenedFile) : Bytes := f.file.content f.opened

def OpenedFile.changed (f : OpenedFile) : Exn :=
    .value (f.label ++ lit " changed after it was opened: " ++ f.path)

/-- `_verify_unchanged` -/
def OpenedFile.verifyUnchanged (f : OpenedFile) : Timed Unit := do
  let current ← sample f.file.metadata
  if current.identity ≠ f.initial.identity then raise f.changed
  else do
    let named ← rethrow (fun _ => f.changed) (call f.named)
    if !named.isRegular || named.identity ≠ f.initial.identity then raise f.changed else pure ()

/-- The bytes of one `os.read`. -/
def chunkBytes : Nat := 1024 * 1024

/-- `os.read` at an offset. -/
def OpenedFile.readAt (f : OpenedFile) (offset size : Nat) : Timed Bytes :=
  sample fun t => ((f.file.content t).drop offset).take size

/-- The chunks up to the empty one. A file that grows as fast as it is read never
ends; `fuel` bounds the reads of the runs that are followed. -/
def OpenedFile.readChunks (f : OpenedFile) : Nat → Nat → Timed Bytes
  | 0, _ => raise (.os .other)
  | fuel + 1, offset => do
    let chunk ← f.readAt offset chunkBytes
    if chunk.isEmpty then pure []
    else do
      let rest ← f.readChunks fuel (offset + chunk.length)
      pure (chunk ++ rest)

/-- One pass over the file: `read_bytes`, and the bytes that `sha256` hashes. -/
def OpenedFile.pass (f : OpenedFile) (fuel : Nat) : Timed Bytes := do
  f.verifyUnchanged
  let data ← f.readChunks fuel 0
  f.verifyUnchanged
  pure data

theorem verifyUnchanged_ok {f : OpenedFile} {t u : Nat} {a : Unit}
    (h : f.verifyUnchanged.run t = (.ok a, u)) :
    (f.file.metadata t).identity = f.initial.identity := by
  obtain ⟨current, s, hcurrent, h⟩ := timed_bind_ok.mp h
  obtain ⟨rfl, rfl⟩ := sample_ok.mp hcurrent
  split at h
  · exact absurd h raise_ok
  · next hsame => simpa using hsame

/-- Up to a moment that shows the metadata of the opening, the content is that of the opening. -/
theorem OpenedFile.content_eq {f : OpenedFile} {k : Nat}
    (h : (f.file.metadata k).identity = f.initial.identity)
    {j : Nat} (hopened : f.opened ≤ j) (hk : j ≤ k) : f.file.content j = f.bytes :=
  f.file.changes f.opened j k hopened hk h

/-- Chunks of a content that stays make it up. -/
theorem readChunks_fixed {f : OpenedFile} {c : Bytes} : ∀ {fuel offset t u : Nat} {data : Bytes},
    (f.readChunks fuel offset).run t = (.ok data, u) → (∀ j, t ≤ j → j ≤ u → f.file.content j = c) →
    data = c.drop offset
  | 0, _, _, _, _, h, _ => absurd h raise_ok
  | fuel + 1, offset, t, u, data, h, hc => by
    have hforward := Timed.le h
    obtain ⟨chunk, s, hchunk, h⟩ := timed_bind_ok.mp h
    obtain ⟨hread, rfl⟩ := sample_ok.mp hchunk
    rw [hc t (Nat.le_refl _) hforward] at hread
    split at h
    · next hempty =>
      obtain ⟨rfl, rfl⟩ := timed_pure_ok.mp h
      have hnone : (c.drop offset).take chunkBytes = [] := by
        rw [hread]
        simpa using hempty
      rcases List.take_eq_nil_iff.mp hnone with hzero | hnil
      · exact absurd hzero (by decide)
      · exact hnil.symm
    · obtain ⟨rest, s, hrest, h⟩ := timed_bind_ok.mp h
      obtain ⟨rfl, rfl⟩ := timed_pure_ok.mp h
      have hdata := readChunks_fixed hrest fun j hj hu => hc j (by omega) hu
      rw [hdata, ← List.drop_drop, ← hread, List.length_take]
      -- a chunk is full, or it is the last one before the empty one
      by_cases hlong : chunkBytes ≤ (c.drop offset).length
      · rw [Nat.min_eq_left hlong]
        exact List.take_append_drop chunkBytes (c.drop offset)
      · rw [Nat.min_eq_right (by omega), List.drop_of_length_le (Nat.le_refl _),
          List.take_of_length_le (by omega), List.append_nil]

/-- What has been read before a check that passes is the content at the opening. -/
theorem readChunks_unchanged {f : OpenedFile} {fuel t u v w : Nat} {data : Bytes} {a : Unit}
    (h : (f.readChunks fuel 0).run t = (.ok data, u))
    (hcheck : f.verifyUnchanged.run v = (.ok a, w))
    (hopened : f.opened ≤ t) (hv : u ≤ v) : data = f.bytes := by
  have hunchanged := verifyUnchanged_ok hcheck
  have hdata := readChunks_fixed h fun j hj hu =>
    OpenedFile.content_eq hunchanged (by omega) (by omega)
  rw [List.drop_zero] at hdata
  exact hdata

/-- What a pass has read is the content at the opening. -/
theorem pass_ok {f : OpenedFile} {fuel t u : Nat} {data : Bytes}
    (h : (f.pass fuel).run t = (.ok data, u))
    (hopened : f.opened ≤ t) : data = f.bytes := by
  obtain ⟨_, s, hbefore, h⟩ := timed_bind_ok.mp h
  obtain ⟨read, s', hread, h⟩ := timed_bind_ok.mp h
  obtain ⟨_, s'', hafter, h⟩ := timed_bind_ok.mp h
  obtain ⟨rfl, rfl⟩ := timed_pure_ok.mp h
  exact readChunks_unchanged hread hafter (Nat.le_trans hopened (Timed.le hbefore)) (Nat.le_refl _)

end SddGov.Release
