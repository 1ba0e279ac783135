import Mathlib.Logic.Relation
import Mathlib.Order.WellFounded

/-!
# Commit histories

Commits with their parents, and trees as functions from paths. A history is
looked at through one question: which paths a range of commits has left alone.
An edge from a parent to a commit is checked on its own, and
`agree_of_edges` says what all of them together mean for the trees: along any
line of descent the paths that no edge touches stay as they are, whatever else
was merged in.

`mergeAt` is the three-way merge, path by path.
-/

namespace SddGov.Git

/-- What a tree holds at each path. -/
abbrev Tree (π β : Type) := π → Option β

/-- Commits, each with its parents and its tree; nothing is its own ancestor. -/
structure History (κ π β : Type) where
  parents : κ → List κ
  tree : κ → Tree π β
  acyclic : WellFounded fun parent commit => parent ∈ parents commit

variable {κ π β : Type}

namespace History

variable (H : History κ π β)

/-- A commit is its own ancestor, and so is every ancestor of a parent. -/
def Ancestor : κ → κ → Prop := Relation.ReflTransGen fun parent commit => parent ∈ H.parents commit

/-- The commits of `start..stop`. -/
structure InRange (start stop commit : κ) : Prop where
  reached : H.Ancestor commit stop
  excluded : ¬H.Ancestor commit start

variable {H}

/-- No commit descends from a child of itself. -/
theorem not_ancestor_parent {parent commit : κ} (h : parent ∈ H.parents commit) :
    ¬H.Ancestor commit parent := by
  intro hback
  have hcycle : Relation.TransGen (fun p c => p ∈ H.parents c) commit commit :=
    Relation.TransGen.tail' hback h
  exact (H.acyclic.transGen.irrefl).irrefl commit hcycle

/-- A child of a descendant of `start` is not an ancestor of `start`. -/
theorem inRange_of_child {start stop parent commit : κ} (hstart : H.Ancestor start parent)
    (hedge : parent ∈ H.parents commit) (hstop : H.Ancestor commit stop) :
    H.InRange start stop commit :=
  ⟨hstop, fun hback => not_ancestor_parent hedge (hback.trans hstart)⟩

/-- The range from its only parent to a commit is the commit. -/
theorem inRange_parent {parent commit id : κ} (h : H.parents commit = [parent]) :
    H.InRange parent commit id ↔ id = commit := by
  constructor
  · intro hid
    rcases Relation.ReflTransGen.cases_tail hid.reached with heq | ⟨p, hp, hedge⟩
    · exact heq.symm
    · rw [h] at hedge
      obtain rfl := List.mem_singleton.mp hedge
      exact absurd hp hid.excluded
  · rintro rfl
    exact ⟨.refl, not_ancestor_parent (by rw [h]; exact List.mem_singleton.mpr rfl)⟩

end History

/-- Two trees hold the same at every path that is not excepted. -/
def AgreeOff (except : π → Prop) (s t : Tree π β) : Prop := ∀ path, ¬except path → s path = t path

namespace AgreeOff

variable {except : π → Prop} {s t u : Tree π β}

theorem refl (t : Tree π β) : AgreeOff except t t := fun _ _ => rfl

theorem symm (h : AgreeOff except s t) : AgreeOff except t s := fun path hp => (h path hp).symm

theorem trans (h : AgreeOff except s t) (h' : AgreeOff except t u) : AgreeOff except s u :=
  fun path hp => (h path hp).trans (h' path hp)

theorem mono {except' : π → Prop} (h : AgreeOff except s t)
    (hsub : ∀ path, except path → except' path) :
    AgreeOff except' s t :=
  fun path hp => h path fun he => hp (hsub path he)

end AgreeOff

/-- **Checked edges leave the rest alone.** Where every edge into a commit of the range changes
excepted paths only, so does the whole way from the start to any commit that descends from it. -/
theorem agree_of_edges {H : History κ π β} {except : π → Prop} {start stop : κ}
    (hedges : ∀ commit, H.InRange start stop commit → ∀ parent ∈ H.parents commit,
      AgreeOff except (H.tree parent) (H.tree commit))
    {commit : κ} (hstart : H.Ancestor start commit) (hstop : H.Ancestor commit stop) :
    AgreeOff except (H.tree start) (H.tree commit) := by
  -- one edge of the line of descent after the other
  induction hstart with
  | refl => exact AgreeOff.refl _
  | @tail parent commit hparent hedge ih =>
    have hrange := History.inRange_of_child hparent hedge hstop
    exact (ih (.head hedge hstop)).trans (hedges commit hrange parent hedge)

/-! ## Three-way merges -/

/-- What a merge leaves at a path: the side that has changed, `none` where both have. -/
def mergeAt [DecidableEq β] (base ours theirs : Option β) : Option (Option β) :=
  if ours = base then some theirs
  else if theirs = base then some ours
  else if ours = theirs then some ours
  else none

/-- The result of a merge without conflicts. -/
def Merges [DecidableEq β] (base ours theirs result : Tree π β) : Prop :=
  ∀ path, mergeAt (base path) (ours path) (theirs path) = some (result path)

/-- Where our side has left the base alone, the merge takes their side. -/
theorem mergeAt_same [DecidableEq β] (base theirs : Option β) :
    mergeAt base base theirs = some theirs := if_pos rfl

theorem Merges.takes_theirs [DecidableEq β] {base ours theirs result : Tree π β} {except : π → Prop}
    (h : Merges base ours theirs result) (hours : AgreeOff except base ours) :
    AgreeOff except result theirs := by
  intro path hp
  have hpath := h path
  rw [← hours path hp, mergeAt_same] at hpath
  exact (Option.some.inj hpath).symm

end SddGov.Git
