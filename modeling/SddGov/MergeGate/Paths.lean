import SddGov.Autonomy.ProductDecision
import SddGov.Evidence.Names
import SddGov.MergeGate.Review

/-!
# Repository-relative paths

A path is taken only where `PurePosixPath` gives back the very text and none of
its parts climbs. The texts that pass are the parts joined by single slashes,
and one text more: `.` has no part at all, and no part is also what there is to
refuse in it (`isRelativePath_iff`). It names the root itself, in each of the
four places that make the test (`accepted_path_safe_iff`).
-/

namespace SddGov.MergeGate

open SddGov.Effect SddGov.Python SddGov.Governance SddGov.Autonomy
open SddGov.Evidence (IsComponent slash pathParts_single pathParts_cons isComponent_of_mem)

/-- One or more components joined by single slashes, none of them a climb, and no backslash. -/
structure IsSafePath (path : PyStr) : Prop where
  components : ∃ parts : List PyStr, parts ≠ []
    ∧ (∀ part ∈ parts, IsComponent part ∧ part ≠ lit "..")
    ∧ path = joinTexts (lit "/") parts
  noBackslash : cp 0x5C ∉ path

/-- Components joined by slashes are the parts of the path. -/
theorem pathParts_join : ∀ {parts : List PyStr}, parts ≠ [] → (∀ part ∈ parts, IsComponent part) →
    pathParts (joinTexts (lit "/") parts) = parts
  | [], h, _ => absurd rfl h
  | [part], _, h => pathParts_single (h part (by simp))
  | part :: next :: rest, _, h => by
    have htail := pathParts_join (List.cons_ne_nil next rest)
      fun p hp => h p (List.mem_cons_of_mem _ hp)
    have htext : joinTexts (lit "/") (part :: next :: rest)
        = part ++ slash :: joinTexts (lit "/") (next :: rest) := by
      rw [joinTexts, List.append_assoc]
      rfl
    rw [htext, pathParts_cons (h part (by simp)), htail]

/-- A joined path starts as its first component does. -/
theorem head_join {parts : List PyStr} (hne : parts ≠ []) (h : ∀ part ∈ parts, IsComponent part) :
    (joinTexts (lit "/") parts).head? ≠ some (cp 0x2F) := by
  obtain ⟨part, rest, rfl⟩ := List.exists_cons_of_ne_nil hne
  have hpart := h part (by simp)
  obtain ⟨c, tail, rfl⟩ := List.exists_cons_of_ne_nil hpart.nonempty
  have hc : c ≠ cp 0x2F := fun he => hpart.slash (he ▸ List.mem_cons_self ..)
  cases rest with
  | nil => simpa [joinTexts] using hc
  | cons next rest => simpa [joinTexts] using hc

theorem pathText_join {parts : List PyStr} (hne : parts ≠ [])
    (h : ∀ part ∈ parts, IsComponent part) :
    pathText (joinTexts (lit "/") parts) = joinTexts (lit "/") parts := by
  unfold pathText
  rw [pathParts_join hne h, if_neg (by simpa using hne)]

/-- The four tests read `str(pure) == path`, the root and the parts. -/
theorem isRelativePath_spec {path : PyStr} : isRelativePath path = true ↔ cp 0x5C ∉ path
    ∧ path.head? ≠ some (cp 0x2F) ∧ pathText path = path ∧ lit ".." ∉ pathParts path := by
  simp [isRelativePath, and_assoc]

theorem IsSafePath.isRelativePath {path : PyStr} (h : IsSafePath path) :
    isRelativePath path = true := by
  obtain ⟨parts, hne, hparts, rfl⟩ := h.components
  have hcomponents := fun part hpart => (hparts part hpart).1
  have hclimb : lit ".." ∉ parts := fun hmem => (hparts _ hmem).2 rfl
  rw [isRelativePath_spec, pathText_join hne hcomponents, pathParts_join hne hcomponents]
  exact ⟨h.noBackslash, head_join hne hcomponents, rfl, hclimb⟩

theorem not_isSafePath_dot : ¬ IsSafePath (lit ".") := by
  intro h
  obtain ⟨parts, hne, hparts, htext⟩ := h.components
  have hread := pathParts_join hne fun part hpart => (hparts part hpart).1
  rw [← htext] at hread
  have hnone : pathParts (lit ".") = [] := by decide
  exact hne (hread.symm.trans hnone)

/-- The test takes the safe paths and the text of the root. -/
theorem isRelativePath_iff {path : PyStr} :
    isRelativePath path = true ↔ IsSafePath path ∨ path = lit "." := by
  constructor
  · intro h
    obtain ⟨hback, -, htext, hclimb⟩ := isRelativePath_spec.mp h
    -- the text of no parts is `.`, the one path that is accepted and has none
    unfold pathText at htext
    split at htext
    · exact .inr htext.symm
    · next hne =>
      refine .inl ⟨⟨pathParts path, by simpa using hne, ?_, htext.symm⟩, hback⟩
      intro part hpart
      refine ⟨isComponent_of_mem hpart, ?_⟩
      rintro rfl
      exact hclimb hpart
  · rintro (h | rfl)
    · exact h.isRelativePath
    · decide

/-! ## The four places -/

/-- Where a path is tested. -/
inductive PathCheck
  | boundedRepositoryPath
  | verifyProductDecision
  | plainRequestBinding
  | verifiedAssumptionsDigest

variable {C : Crypto}

/-- A path is accepted: it is resolved, or the function goes on to the file system with it. -/
def Accepts (C : Crypto) : PathCheck → PyStr → Prop
  | .boundedRepositoryPath, path => ∃ (F : RepositoryPaths) (label found : PyStr),
      MergeGate.boundedRepositoryPath F (.str path) label = .ok found
  | .verifyProductDecision, path => ∃ signed decisionId t x,
      Runs (Autonomy.verifyProductDecision C signed decisionId path) t x ∧ t ≠ []
  | .plainRequestBinding, path => ∃ decisionId scope label package t x,
      Runs (Autonomy.plainRequestBinding C path decisionId scope label package) t x ∧ t ≠ []
  | .verifiedAssumptionsDigest, path => ∃ assumptions t x answer,
      Runs (Autonomy.verifiedAssumptionsDigest C assumptions) t x
        ∧ (⟨.readSnapshot path, answer⟩ : Event hostSig) ∈ t

theorem boundedRepositoryPath_relative {F : RepositoryPaths} {path label found : PyStr}
    (h : boundedRepositoryPath F (.str path) label = .ok found) : isRelativePath path = true := by
  by_contra hrelative
  simp only [boundedRepositoryPath] at h
  split at h
  · exact absurd h (by simp)
  · rw [if_pos (by simpa using hrelative)] at h
    exact absurd h (by simp)

/-- A program that first tests its path asks nothing where the test fails. -/
theorem asks_nothing {α : Type} {b : Bool} {message : String} {p : HostProg α}
    {t : List (Event hostSig)}
    {x : Outcome Exn α}
    (h : Runs ((Prog.ofExcept (require b message)).handle (fun _ => p) .raise) t x)
    (ht : t ≠ []) : b = true := by
  cases b with
  | true => rfl
  | false => exact absurd (runs_raise h).1 ht

theorem calls_raising {α : Type} {P : HostOp → Prop} {p : HostProg (Except Exn α)} (h : p.Calls P) :
    (raising p).Calls P :=
  h.bind fun x => Prog.Calls.ofExcept x

/-- The snapshot is asked for paths that pass the test only. -/
def ReadsRelative (o : HostOp) : Prop := ∀ path, o = .readSnapshot path → isRelativePath path = true

theorem readsRelative_withSnapshot {α : Type} {root : SnapshotRoot} {body : HostProg α}
    (h : body.Calls ReadsRelative) : (withSnapshot root body).Calls ReadsRelative := by
  have hopen : ReadsRelative (.openSnapshot root) := by simp [ReadsRelative]
  have hreconcile : ReadsRelative .reconcileSnapshot := by simp [ReadsRelative]
  have hdrop : ReadsRelative .dropSnapshot := by simp [ReadsRelative]
  refine (calls_raising (.perform hopen)).bind fun _ => h.handle (fun _ => ?_) fun _ => ?_
  · exact (calls_raising (.perform hreconcile)).bind fun _ => trivial
  · exact (Prog.Calls.perform hdrop).bind fun _ => trivial

/-- The assumptions are only read at relative paths; the induction is on the rows. -/
theorem readsRelative_assumptions (rows : List Json) (index : Nat) (seen : List PyStr) :
    (verifyAssumptions C index seen rows).Calls ReadsRelative := by
  induction rows generalizing index seen with
  | nil => trivial
  | cons row rest ih =>
    rw [verifyAssumptions]
    split
    · trivial
    · next path _ _ =>
      split
      · trivial
      · next hpass =>
        -- the snapshot is read after the test on the path of the row, and only then
        have hrelative : isRelativePath path = true := by
          simp only [Bool.or_eq_true, Bool.not_eq_true', not_or, Bool.not_eq_false] at hpass
          exact hpass.1
        have hread : ReadsRelative (.readSnapshot path) := by
          intro other hother
          rw [← HostOp.readSnapshot.inj hother]
          exact hrelative
        refine (calls_raising (.perform hread)).bind fun raw =>
          (Prog.Calls.ofExcept _).bind fun _ => ?_
        exact (ih _ _).bind fun _ => trivial

theorem readsRelative_digest (assumptions : Json) :
    (verifiedAssumptionsDigest C assumptions).Calls ReadsRelative := by
  unfold verifiedAssumptionsDigest
  split
  · exact readsRelative_withSnapshot ((readsRelative_assumptions _ _ _).bind fun _ =>
      Prog.Calls.ofExcept _)
  · trivial

/-- Every one of the checks refuses what is not relative. -/
theorem accepts_relative {check : PathCheck} {path : PyStr} (h : Accepts C check path) :
    isRelativePath path = true := by
  cases check with
  | boundedRepositoryPath =>
    obtain ⟨_, _, _, h⟩ := h
    exact boundedRepositoryPath_relative h
  | verifyProductDecision =>
    obtain ⟨_, _, _, _, h, ht⟩ := h
    have htest := asks_nothing h ht
    simp only [Bool.and_eq_true] at htest
    exact htest.2
  | plainRequestBinding =>
    obtain ⟨_, _, _, _, _, _, h, ht⟩ := h
    have htest := asks_nothing h ht
    simp only [Bool.and_eq_true] at htest
    exact htest.2
  | verifiedAssumptionsDigest =>
    obtain ⟨assumptions, _, _, _, h, hread⟩ := h
    exact (readsRelative_digest assumptions).runs h _ hread path rfl

/-- The paths of a repository without links. -/
def linkFree : RepositoryPaths where
  isLink _ := false
  resolve := id
  isInside _ := true

/-- An assumption about the root of the repository. -/
def rootAssumption : Json :=
  .obj [(lit "path", .str (lit ".")), (lit "sha256", .str (List.replicate 64 (cp 0x30)))]

/-- Every one of the checks takes the dot. -/
theorem accepts_dot (check : PathCheck) : Accepts C check (lit ".") := by
  cases check with
  | boundedRepositoryPath =>
    exact ⟨linkFree, lit "review receipt", lit ".", by decide⟩
  | verifyProductDecision =>
    have hopen : Runs (verifyProductDecision C (fun _ _ _ => .raise .attribute) .null (lit "."))
        [⟨.openSnapshot .repository, .error .attribute⟩] (.error .attribute) :=
      Runs.call (S := hostSig) (HostOp.openSnapshot .repository) (.raise _)
    exact ⟨_, _, _, _, hopen, by simp⟩
  | plainRequestBinding =>
    have hopen : Runs (plainRequestBinding C (lit ".") .null .null [] .null)
        [⟨.openSnapshot .repository, .error .attribute⟩] (.error .attribute) :=
      Runs.call (S := hostSig) (HostOp.openSnapshot .repository) (.raise _)
    exact ⟨_, _, _, _, _, _, hopen, by simp⟩
  | verifiedAssumptionsDigest =>
    have hread : Runs (verifiedAssumptionsDigest C (.arr [rootAssumption]))
        [⟨.openSnapshot .repository, .ok ()⟩, ⟨.readSnapshot (lit "."), .error (.os .missing)⟩,
          ⟨.dropSnapshot, .ok ()⟩]
        (.error (.os .missing)) :=
      Runs.call (S := hostSig) (HostOp.openSnapshot .repository)
        (Runs.call (S := hostSig) (HostOp.readSnapshot (lit "."))
          (Runs.call (S := hostSig) HostOp.dropSnapshot (.raise _)))
    exact ⟨_, _, _, .error (.os .missing), hread, List.mem_cons_of_mem _ (List.mem_cons_self ..)⟩

/-- A path that is accepted is one or more components below the root, unless it is `.`. -/
theorem accepted_path_safe_iff (C : Crypto) (check : PathCheck) (path : PyStr) :
    (Accepts C check path → IsSafePath path) ↔ path ≠ lit "." := by
  constructor
  · rintro hsafe rfl
    exact not_isSafePath_dot (hsafe (accepts_dot check))
  · intro hne haccepts
    rcases isRelativePath_iff.mp (accepts_relative haccepts) with hsafe | hdot
    · exact hsafe
    · exact absurd hdot hne

theorem root_accepted :
    boundedRepositoryPath linkFree (.str (lit ".")) (lit "review receipt") = .ok (lit ".")
    ∧ ¬ IsSafePath (lit ".") :=
  ⟨by decide, not_isSafePath_dot⟩

end SddGov.MergeGate
