import Mathlib.Tactic.Common

/-!
# The mutation transaction of an evidence package

A publication replaces a document: the new bytes are linked at its name while
the predecessor is kept under a claim. `_MutationTransaction` collects
publications and ends all of them at once. `finalize` verifies every document
and then removes the claims one after another; `rollback` removes every new file
and links its predecessor back.

Each closure touches one document, and each of its calls is made once, so how
the calls of a publication end is fixed by its `Faults`. The directory
descriptors that a transaction retains are closed with every error ignored and
are left out.

The claims are removed before it is known that all of them can be:
`finalize` is all-or-nothing exactly on the faults of `Recoverable`.
-/

namespace SddGov.Evidence

/-- Whose bytes stand at a document's name. -/
inductive Generation
  | predecessor
  | published
  deriving DecidableEq, Repr

/-- How `_remove_owned_at` can end for a file that nobody else touches. -/
inductive Removal
  | removed             -- `True`
  | kept                -- `False`, the file is back at its name
  | failed              -- an exception, the file is at its name
  | removedThenFailed   -- an exception after the unlink
  | stranded            -- an exception, the file is left under its private name
  deriving DecidableEq, Repr

/-- The file is no longer at its name. -/
def Removal.gone : Removal → Bool
  | .removed | .removedThenFailed | .stranded => true
  | .kept | .failed => false

/-- What the call returns; `none` is an exception. -/
def Removal.answer : Removal → Option Bool
  | .removed => some true
  | .kept => some false
  | .failed | .removedThenFailed | .stranded => none

/-- Whether the file is there after `_remove_owned_at`, and what the call returns. -/
def removeOwnedAt (present : Bool) (r : Removal) : Bool × Option Bool :=
  if present then (!r.gone, r.answer) else (false, some false)

/-- A document: what is at its name, whether its predecessor claim is there, and the
closures' `old_claim_exists`. -/
structure Document where
  current : Option Generation
  oldClaim : Bool
  oldClaimExists : Bool
  deriving DecidableEq, Repr

/-- How the calls of the three closures of a publication end. -/
structure Faults where
  /-- the check of `verify_publication` passes -/
  verified : Bool
  /-- `finalize_predecessor` removes the claim -/
  finalRemoval : Removal
  /-- the `os.stat` after a failed removal answers whether the claim is there -/
  finalStat : Bool
  /-- `rollback_publication` removes the new file -/
  newRemoval : Removal
  /-- the check of the claim in `restore_old_claim` passes -/
  claimVerified : Bool
  /-- `os.link` of the claim works where the name is free -/
  link : Bool
  /-- `discard_old_claim` removes the claim -/
  discard : Removal
  /-- the check of the restored document passes -/
  restoredVerified : Bool
  deriving DecidableEq, Repr

structure Publication where
  document : Document
  faults : Faults
  deriving DecidableEq, Repr

/-! ## The closures

Each gives the document after it and whether it returned. -/

section Closures

variable (f : Faults) (d : Document)

/-- `verify_publication` -/
def verifyPublication : Bool := d.current == some .published && f.verified

/-- `discard_old_claim` -/
def discardOldClaim : Document × Bool :=
  let (present, answer) := removeOwnedAt d.oldClaim f.discard
  let d := { d with oldClaim := present }
  if answer = some true then ({ d with oldClaimExists := false }, true) else (d, false)

/-- `restore_old_claim` -/
def restoreOldClaim : Document × Bool :=
  if !d.oldClaimExists then (d, true)
  else if !(d.oldClaim && f.claimVerified) then (d, false)
  else if !f.link then (d, false)
  else if d.current.isSome then discardOldClaim f d
  else
    let (d, returned) := discardOldClaim f { d with current := some .predecessor }
    (d, returned && f.restoredVerified)

/-- `rollback_publication` -/
def rollbackPublication : Document × Bool :=
  let (present, answer) := removeOwnedAt (d.current == some .published) f.newRemoval
  let d := if d.current = some .published ∧ present = false then { d with current := none } else d
  match answer with
  | none => (d, false)
  | some _ => restoreOldClaim f d

/-- `finalize_predecessor`: a failed removal counts as done when the claim is gone. -/
def finalizePredecessor : Document × Bool :=
  if !d.oldClaimExists then (d, true)
  else
    let (present, answer) := removeOwnedAt d.oldClaim f.finalRemoval
    let d := { d with oldClaim := present }
    match answer with
    | some true => ({ d with oldClaimExists := false }, true)
    | some false => (d, false)
    | none => if f.finalStat && !present then ({ d with oldClaimExists := false }, true) else
        (d, false)

end Closures

/-! ## The transaction -/

structure MutationTransaction where
  publications : List Publication
  finished : Bool

/-- Every operation is tried, whatever the others do; the first exception is raised at the end. -/
def runAll (step : Faults → Document → Document × Bool) : List Publication → List Publication × Bool
  | [] => ([], true)
  | p :: ps =>
    let (d, returned) := step p.faults p.document
    let (rest, others) := runAll step ps
    ({ p with document := d } :: rest, returned && others)

/-- `rollback`, the last publication first. -/
def MutationTransaction.rollback (t : MutationTransaction) : MutationTransaction × Bool :=
  if t.finished then (t, true)
  else
    let (ps, returned) := runAll rollbackPublication t.publications.reverse
    (⟨ps.reverse, true⟩, returned)

/-- `finalize` -/
def MutationTransaction.finalize (t : MutationTransaction) : MutationTransaction × Bool :=
  if t.finished then (t, true)
  else if !(t.publications.all fun p => verifyPublication p.faults p.document) then
    (t.rollback.1, false)
  else
    let (ps, returned) := runAll finalizePredecessor t.publications
    if returned then (⟨ps, true⟩, true)
    else ((MutationTransaction.mk ps false).rollback.1, false)

/-- The ways a transaction ends. -/
inductive Ending
  | finalize
  | rollback

/-- The transaction after it has ended, whether it returned or raised. -/
def MutationTransaction.ended (t : MutationTransaction) : Ending → MutationTransaction
  | .finalize => t.finalize.1
  | .rollback => t.rollback.1

/-- A publication with a predecessor as `_write_bytes_at` registers it. -/
def registered (f : Faults) : Publication := ⟨⟨some .published, true, true⟩, f⟩

/-- A transaction over any number of publications. -/
def opened (faults : List Faults) : MutationTransaction := ⟨faults.map registered, false⟩

/-- All documents hold their new bytes, or all hold their predecessor's. -/
def Atomic (t : MutationTransaction) : Prop :=
  (∀ p ∈ t.publications, p.document.current = some .published)
    ∨ ∀ p ∈ t.publications, p.document.current = some .predecessor

/-! ## Which faults it survives -/

/-- `finalize_predecessor` returns. -/
def Faults.finalizes (f : Faults) : Bool :=
  f.finalRemoval == .removed || (f.finalRemoval.gone && f.finalStat)

/-- `finalize_predecessor` leaves the claim where it is. -/
def Faults.keepsClaim (f : Faults) : Bool := !f.finalRemoval.gone

/-- `rollback_publication` gets the new file out of the way and, with the claim still
there, the predecessor linked. -/
def Faults.restores (f : Faults) : Bool := f.newRemoval == .removed && f.claimVerified && f.link

/-- `rollback_publication` fails to remove the new file. -/
def Faults.keepsNew (f : Faults) : Bool := !f.newRemoval.gone

/-- No step fails; or no rollback step removes its new file; or every rollback step gets
its predecessor back, and no claim has been removed before. -/
def Recoverable (faults : List Faults) : Ending → Prop
  | .finalize =>
    (∀ f ∈ faults, f.verified = true ∧ f.finalizes = true)
      ∨ (∀ f ∈ faults, f.keepsNew = true)
      ∨ ((∀ f ∈ faults, f.restores = true)
        ∧ ((∃ f ∈ faults, f.verified = false) ∨ ∀ f ∈ faults, f.keepsClaim = true))
  | .rollback => (∀ f ∈ faults, f.keepsNew = true) ∨ ∀ f ∈ faults, f.restores = true

/-! ## One publication -/

theorem runAll_eq (step : Faults → Document → Document × Bool) (ps : List Publication) :
    runAll step ps
      = (ps.map fun p => { p with document := (step p.faults p.document).1 },
        ps.all fun p => (step p.faults p.document).2) := by
  induction ps with
  | nil => rfl
  | cons p ps ih => simp [runAll, ih]

/-- The documents after a rollback; the order plays no part. -/
theorem rollback_publications (ps : List Publication) :
    (MutationTransaction.mk ps false).rollback.1.publications
      = ps.map fun p => { p with document := (rollbackPublication p.faults p.document).1 } := by
  simp [MutationTransaction.rollback, runAll_eq]

theorem discardOldClaim_current (f : Faults) (d : Document) :
    (discardOldClaim f d).1.current = d.current := by
  unfold discardOldClaim
  dsimp only
  split <;> rfl

theorem restoreOldClaim_current (f : Faults) (d : Document) :
    (restoreOldClaim f d).1.current
      = if d.oldClaimExists && d.oldClaim && f.claimVerified && f.link && d.current.isNone then
      some .predecessor
        else d.current := by
  unfold restoreOldClaim
  cases hexists : d.oldClaimExists <;> cases hclaim : d.oldClaim <;> cases hverified :
    f.claimVerified <;>
    cases hlink : f.link <;> cases hcurrent : d.current <;> simp [discardOldClaim_current, hcurrent]

/-- What stands at the name after a rollback step: the new file where it was not
removed, and else the predecessor, if its claim is there and can be linked. -/
theorem rollbackPublication_current (f : Faults) {d : Document} (h : d.current = some .published) :
    (rollbackPublication f d).1.current
      = if f.keepsNew then some .published
        else if f.restores && d.oldClaimExists && d.oldClaim then some .predecessor else none := by
  unfold rollbackPublication removeOwnedAt
  cases hr : f.newRemoval <;>
    simp [h, hr, Removal.gone, Removal.answer, Faults.keepsNew, Faults.restores,
      restoreOldClaim_current]
  all_goals
    cases d.oldClaimExists <;> cases d.oldClaim <;> cases f.claimVerified <;> cases f.link <;> rfl

/-- A finalizer leaves the name alone, and the claim with its flag exactly where it keeps the
claim. -/
theorem finalizePredecessor_spec (f : Faults) :
    (finalizePredecessor f (registered f).document).2 = f.finalizes
      ∧ (finalizePredecessor f (registered f).document).1.current = some .published
      ∧ ((finalizePredecessor f (registered f).document).1.oldClaimExists
          && (finalizePredecessor f (registered f).document).1.oldClaim) = f.keepsClaim := by
  cases hr : f.finalRemoval <;> cases hs : f.finalStat <;>
    simp [finalizePredecessor, registered, removeOwnedAt, Removal.gone, Removal.answer,
      Faults.finalizes,
      Faults.keepsClaim, hr, hs]

theorem not_keepsNew_of_restores {f : Faults} (h : f.restores = true) : f.keepsNew = false := by
  simp only [Faults.restores, Bool.and_eq_true, beq_iff_eq] at h
  simp [Faults.keepsNew, h.1.1, Removal.gone]

/-! ## All publications -/

/-- A rollback is all-or-nothing where no step removes its new file, or every step
restores a claim that is still there. -/
theorem rollback_atomic_iff {ps : List Publication}
    (h : ∀ p ∈ ps, p.document.current = some .published) :
    Atomic (MutationTransaction.mk ps false).rollback.1
      ↔ (∀ p ∈ ps, p.faults.keepsNew = true)
        ∨ ∀ p ∈ ps, p.faults.restores = true ∧ (p.document.oldClaimExists && p.document.oldClaim)
          = true := by
  have hcurrent : ∀ p ∈ ps, (rollbackPublication p.faults p.document).1.current
      = if p.faults.keepsNew then some .published
        else if p.faults.restores && p.document.oldClaimExists && p.document.oldClaim then
          some .predecessor
        else none :=
    fun p hp => rollbackPublication_current p.faults (h p hp)
  unfold Atomic
  rw [rollback_publications, List.forall_mem_map, List.forall_mem_map]
  apply or_congr
  · apply forall₂_congr
    intro p hp
    dsimp only
    rw [hcurrent p hp]
    cases hkeeps : p.faults.keepsNew
    · simp only [Bool.false_eq_true, if_false, iff_false]
      split <;> simp
    · simp
  · apply forall₂_congr
    intro p hp
    dsimp only
    rw [hcurrent p hp, Bool.and_assoc]
    by_cases hrestores : p.faults.restores = true
    · simp [hrestores, not_keepsNew_of_restores hrestores]
    · rw [Bool.not_eq_true] at hrestores
      simp only [hrestores, Bool.false_and, Bool.false_eq_true, if_false, false_and, iff_false]
      split <;> simp

theorem registered_current (faults : List Faults) :
    ∀ p ∈ faults.map registered, p.document.current = some .published := by
  intro p hp
  obtain ⟨f, -, rfl⟩ := List.mem_map.mp hp
  rfl

/-- Rolling back before any claim is removed. -/
theorem rollback_registered_iff (faults : List Faults) :
    Atomic (opened faults).rollback.1
      ↔ (∀ f ∈ faults, f.keepsNew = true) ∨ ∀ f ∈ faults, f.restores = true := by
  unfold opened
  rw [rollback_atomic_iff (registered_current faults), List.forall_mem_map, List.forall_mem_map]
  simp [registered]

/-- The publications after the finalizers. -/
theorem runAll_finalize (faults : List Faults) :
    (runAll finalizePredecessor (faults.map registered)).2 = faults.all Faults.finalizes := by
  rw [runAll_eq]
  induction faults with
  | nil => rfl
  | cons f faults ih =>
    simp only [List.map_cons, List.all_cons] at ih ⊢
    rw [ih]
    exact congrArg (· && _) (finalizePredecessor_spec f).1

theorem finalized_current (faults : List Faults) :
    ∀ p ∈ (runAll finalizePredecessor (faults.map registered)).1,
    p.document.current = some .published := by
  rw [runAll_eq, List.map_map]
  intro p hp
  obtain ⟨f, -, rfl⟩ := List.mem_map.mp hp
  exact (finalizePredecessor_spec f).2.1

/-- Rolling back after the finalizers: their claims have to be there still. -/
theorem rollback_finalized_iff (faults : List Faults) :
    Atomic (MutationTransaction.mk (runAll finalizePredecessor (faults.map registered)).1
      false).rollback.1
      ↔ (∀ f ∈ faults, f.keepsNew = true) ∨ ∀ f ∈ faults, f.restores = true
        ∧ f.keepsClaim = true := by
  rw [rollback_atomic_iff (finalized_current faults), runAll_eq, List.map_map, List.forall_mem_map,
    List.forall_mem_map]
  apply or_congr Iff.rfl
  apply forall₂_congr
  intro f _
  have hclaim := (finalizePredecessor_spec f).2.2
  show f.restores = true ∧ ((finalizePredecessor f (registered f).document).1.oldClaimExists
    && (finalizePredecessor f (registered f).document).1.oldClaim) = true ↔ _
  rw [hclaim]

/-- **The transaction over any number of documents** is all-or-nothing exactly on
the faults it can recover from. -/
theorem transaction_atomic_iff (faults : List Faults) (ending : Ending) :
    Atomic ((opened faults).ended ending) ↔ Recoverable faults ending := by
  cases ending with
  | rollback => exact rollback_registered_iff faults
  | finalize =>
    have hverify : (opened faults).publications.all (fun p => verifyPublication p.faults p.document)
        = faults.all Faults.verified := by
      unfold opened
      rw [List.all_map]
      rfl
    show Atomic (opened faults).finalize.1 ↔ _
    unfold MutationTransaction.finalize
    rw [hverify, if_neg (by simp [opened])]
    by_cases hverified : faults.all Faults.verified = true
    · have hall : ∀ f ∈ faults, f.verified = true := List.all_eq_true.mp hverified
      have hnone : ¬ ∃ f ∈ faults, f.verified = false := by
        rintro ⟨f, hf, hfalse⟩
        rw [hall f hf] at hfalse
        exact absurd hfalse (by simp)
      rw [hverified, Bool.not_true, if_neg (by simp)]
      dsimp only [opened]
      rw [runAll_finalize]
      by_cases hfinal : faults.all Faults.finalizes = true
      · rw [if_pos hfinal]
        constructor
        · exact fun _ => .inl fun f hf => ⟨hall f hf, List.all_eq_true.mp hfinal f hf⟩
        · exact fun _ => .inl (finalized_current faults)
      · rw [if_neg hfinal, rollback_finalized_iff]
        have hnot : ¬ ∀ f ∈ faults, f.verified = true ∧ f.finalizes = true :=
          fun h => hfinal (List.all_eq_true.mpr fun f hf => (h f hf).2)
        unfold Recoverable
        simp only [hnot, hnone, false_or]
        apply or_congr Iff.rfl
        exact ⟨fun h => ⟨fun f hf => (h f hf).1, fun f hf => (h f hf).2⟩,
          fun h f hf => ⟨h.1 f hf, h.2 f hf⟩⟩
    · have hsome : ∃ f ∈ faults, f.verified = false := by
        simpa using hverified
      have hnot : ¬ ∀ f ∈ faults, f.verified = true ∧ f.finalizes = true :=
        fun h => hverified (List.all_eq_true.mpr fun f hf => (h f hf).1)
      rw [Bool.not_eq_true] at hverified
      rw [hverified, Bool.not_false, if_pos rfl, rollback_registered_iff]
      unfold Recoverable
      simp only [hnot, hsome, false_or, true_or, and_true]

/-- Nothing fails but the removal of the second predecessor claim. -/
def secondClaimFails : List Faults :=
  [⟨true, .removed, true, .removed, true, true, .removed, true⟩,
    ⟨true, .failed, true, .removed, true, true, .removed, true⟩]

/-- The rollback then takes the first document away: its predecessor is gone already. -/
theorem transaction_loses_document :
    ¬ ∀ faults : List Faults, ∀ ending : Ending, Atomic ((opened faults).ended ending)
        ∧ ∀ p ∈ ((opened faults).ended ending).publications, p.document.current ≠ none := by
  intro h
  have hfirst := (h secondClaimFails .finalize).2
    ⟨⟨none, false, false⟩, secondClaimFails.head (by decide)⟩ (by decide)
  exact hfirst rfl

end SddGov.Evidence
