import SddGov.Evidence.Produce

/-!
# Names of artifacts

What `Path` makes of a name without a separator, alone and below its zone: its
components, its last component and its suffix. A suffix is a dot and what
follows it, after at least one character and up to the end
(`suffixOf_spec`, `suffixOf_eq`).
-/

namespace SddGov.Evidence

open SddGov.Python
open SddGov.Autonomy (pathParts pathText isRelativePath)

def slash : CodePoint := cp 0x2F
def dot : CodePoint := cp 0x2E
def backslash : CodePoint := cp 0x5C

/-- A name that is one component of a path. -/
structure IsComponent (name : PyStr) : Prop where
  slash : slash ∉ name
  nonempty : name ≠ []
  notDot : name ≠ lit "."

section Component

variable {name : PyStr} (h : IsComponent name)

include h

theorem IsComponent.kept : (!name.isEmpty && name != lit ".") = true := by
  simp [h.nonempty, h.notDot]

theorem IsComponent.unsplit : ∀ c ∈ name, (c == cp 0x2F) = false := by
  intro c hc
  have hne : c ≠ cp 0x2F := by
    rintro rfl
    exact h.slash hc
  simpa using hne

theorem pathParts_single : pathParts name = [name] := by
  unfold pathParts splitAt
  rw [List.splitOnP_eq_singleton h.unsplit, List.filter_cons, if_pos h.kept, List.filter_nil]

theorem pathParts_cons (rest : PyStr) : pathParts (name ++ slash :: rest) = name
    :: pathParts rest := by
  unfold pathParts splitAt
  rw [List.splitOnP_append_cons_of_forall_mem h.unsplit slash (by rfl), List.filter_cons,
    if_pos h.kept]

theorem nameOf_component : nameOf name = name := by
  unfold nameOf
  rw [pathParts_single h]
  rfl

end Component

/-- No piece of a split text holds the separator. -/
theorem not_mem_splitOnP {p : CodePoint → Bool} {s part : PyStr} (h : part ∈ s.splitOnP p) :
    ∀ c ∈ part, p c = false := by
  induction s generalizing part with
  | nil =>
    rw [List.splitOnP_nil, List.mem_singleton] at h
    simp [h]
  | cons c s ih =>
    rw [List.splitOnP_cons_eq_if_modifyHead] at h
    split at h
    · rcases List.mem_cons.mp h with rfl | h
      · simp
      · exact ih h
    · next hc =>
      cases hs : s.splitOnP p with
      | nil => exact absurd hs (List.splitOnP_ne_nil p s)
      | cons first rest =>
        rw [hs, List.modifyHead_cons] at h
        rcases List.mem_cons.mp h with rfl | h
        · intro d hd
          rcases List.mem_cons.mp hd with rfl | hd
          · simpa using hc
          · exact ih (hs ▸ List.mem_cons_self ..) d hd
        · exact ih (hs ▸ List.mem_cons_of_mem _ h)

/-- Every part of a path is a component. -/
theorem isComponent_of_mem {path part : PyStr} (h : part ∈ pathParts path) : IsComponent part := by
  unfold pathParts at h
  obtain ⟨hsplit, hkept⟩ := List.mem_filter.mp h
  simp only [Bool.and_eq_true, Bool.not_eq_true', bne_iff_ne, ne_eq, List.isEmpty_eq_false_iff]
    at hkept
  refine ⟨?_, hkept.1, hkept.2⟩
  intro hslash
  unfold splitAt at hsplit
  exact absurd (not_mem_splitOnP hsplit slash hslash) (by simp [slash])

theorem slash_nameOf (path : PyStr) : slash ∉ nameOf path := by
  unfold nameOf
  cases hlast : (pathParts path).getLast? with
  | none => simp
  | some part => exact (isComponent_of_mem (List.mem_of_getLast? hlast)).slash

/-! ## Below a zone -/

/-- The path of an artifact in its zone. -/
def artifactPath (kind : Kind) (name : PyStr) : PyStr := kind.zone ++ lit "/" ++ name

/-- The path of an artifact has the parts of its zone and its name. -/
theorem pathParts_artifact (kind : Kind) {name : PyStr} (h : IsComponent name) :
    pathParts (artifactPath kind name) = pathParts kind.zone ++ [name] := by
  have hcomponent : ∀ part ∈ [lit "private", lit "raw", lit "shareable", lit "artifacts"],
    IsComponent part := by
    intro part hpart
    have hzones : [lit "private", lit "raw", lit "shareable", lit "artifacts"].all (fun part =>
        !part.contains slash && !part.isEmpty && part != lit ".") = true := by decide
    have hpart := List.all_eq_true.mp hzones part hpart
    simp only [Bool.and_eq_true, Bool.not_eq_true', bne_iff_ne, ne_eq, List.isEmpty_eq_false_iff]
      at hpart
    exact ⟨by simpa using hpart.1.1, hpart.1.2, hpart.2⟩
  cases kind with
  | raw =>
    have htext : artifactPath .raw name = lit "private"
      ++ slash :: (lit "raw" ++ slash :: name) := rfl
    rw [htext, pathParts_cons (hcomponent _ (by simp)), pathParts_cons (hcomponent _ (by simp)),
      pathParts_single h]
    rfl
  | shareable =>
    have htext : artifactPath .shareable name = lit "shareable"
      ++ slash :: (lit "artifacts" ++ slash :: name) := rfl
    rw [htext, pathParts_cons (hcomponent _ (by simp)), pathParts_cons (hcomponent _ (by simp)),
      pathParts_single h]
    rfl

theorem nameOf_artifact (kind : Kind) {name : PyStr} (h : IsComponent name) :
    nameOf (artifactPath kind name) = name := by
  unfold nameOf
  rw [pathParts_artifact kind h, List.getLast?_concat]
  rfl

/-- The path of an artifact is in normal form and names it. -/
theorem manifestArtifactPath_artifact (kind : Kind) {z : Zone} {name : PyStr} (h : IsComponent name)
    (hclimb : name ≠ lit "..") (hback : backslash ∉ name) (hz : crossesLink z name = false) :
    manifestArtifactPath (fun _ => false) kind z (.str (artifactPath kind name))
      = .ok (artifactPath kind name, name) := by
  have hparts := pathParts_artifact kind h
  have hnormal : isRelativePath (artifactPath kind name) = true := by
    have htext : pathText (artifactPath kind name) = artifactPath kind name := by
      unfold pathText
      rw [hparts, if_neg (by simp)]
      cases kind <;> rfl
    have hhead : (artifactPath kind name).head? ≠ some (cp 0x2F) := by
      cases kind with
      | raw => exact (by decide : some (cp 0x70) ≠ some (cp 0x2F))
      | shareable => exact (by decide : some (cp 0x73) ≠ some (cp 0x2F))
    have hback' : (artifactPath kind name).contains (cp 0x5C) = false := by
      have hzone : backslash ∉ kind.zone ++ lit "/" := by cases kind <;> decide
      have hpath : backslash ∉ artifactPath kind name := by
        unfold artifactPath
        rw [List.mem_append, not_or]
        exact ⟨hzone, hback⟩
      simpa [backslash] using hpath
    have hdots : (pathParts (artifactPath kind name)).contains (lit "..") = false := by
      have hzone : lit ".." ∉ pathParts kind.zone := by cases kind <;> decide
      rw [hparts]
      simpa using ⟨hzone, Ne.symm hclimb⟩
    unfold isRelativePath
    rw [htext, hback', hdots]
    simpa using hhead
  have hnonempty : artifactPath kind name ≠ [] := by simp [artifactPath, h.nonempty]
  have hback' : ¬ (artifactPath kind name).contains (cp 0x5C) = true := by
    unfold isRelativePath at hnormal
    simp only [Bool.and_eq_true, Bool.not_eq_true'] at hnormal
    rw [hnormal.1.1.1]
    simp
  unfold manifestArtifactPath
  dsimp only
  rw [if_neg (not_or.mpr ⟨hnonempty, hback'⟩), hnormal, hparts, List.dropLast_concat,
    nameOf_artifact kind h, hz]
  simp

/-! ## Suffixes -/

/-- Whatever follows the last dot. -/
theorem suffixOf_eq {s pre t : PyStr} (hname : nameOf s = pre ++ dot :: t) (hpre : pre ≠ [])
    (ht : t ≠ [])
    (hdot : dot ∉ t) : suffixOf s = dot :: t := by
  unfold suffixOf
  have htail : (((nameOf s).reverse.takeWhile (· != cp 0x2E)).reverse) = t := by
    rw [hname, List.reverse_append, List.reverse_cons, List.append_assoc,
      List.takeWhile_append_of_pos]
    · simp [dot]
    · intro c hc
      have hne : c ≠ cp 0x2E := by
        rintro rfl
        exact hdot (List.mem_reverse.mp hc)
      simpa using hne
  simp only [htail]
  rw [if_pos]
  · rfl
  · refine ⟨ht, ?_⟩
    rw [hname, List.length_append, List.length_cons]
    have hlength := List.length_pos_of_ne_nil hpre
    omega

/-- A suffix is empty, or is what `suffixOf_eq` says. -/
theorem suffixOf_spec (s : PyStr) : suffixOf s = [] ∨
    ∃ pre t, nameOf s = pre ++ dot :: t ∧ pre ≠ [] ∧ t ≠ [] ∧ dot ∉ t ∧ suffixOf s = dot :: t := by
  by_cases hempty : suffixOf s = []
  · exact .inl hempty
  · right
    unfold suffixOf at hempty ⊢
    dsimp only at hempty ⊢
    generalize hs : nameOf s = name at hempty ⊢
    generalize htail : (name.reverse.takeWhile (· != cp 0x2E)).reverse = tail at hempty ⊢
    split at hempty
    · next hsuffix =>
      rw [if_pos hsuffix]
      obtain ⟨ht, hlength⟩ := hsuffix
      -- the name is what is before the tail, and the tail
      have hsplit : name.reverse = tail.reverse ++ name.reverse.dropWhile (· != cp 0x2E) := by
        rw [← htail, List.reverse_reverse, List.takeWhile_append_dropWhile]
      have htaildot : dot ∉ tail := by
        intro hdot
        rw [← htail, List.mem_reverse] at hdot
        exact absurd (List.mem_takeWhile_imp hdot) (by simp [dot])
      cases hrest : name.reverse.dropWhile (· != cp 0x2E) with
      | nil =>
        have hsame := congrArg List.length hsplit
        rw [hrest, List.append_nil, List.length_reverse, List.length_reverse] at hsame
        omega
      | cons c more =>
        have hc := List.head?_dropWhile_not (· != cp 0x2E) name.reverse
        rw [hrest] at hc
        obtain rfl : c = dot := by simpa [dot] using hc
        rw [hrest] at hsplit
        have hname : name = more.reverse ++ dot :: tail := by
          have hreverse := congrArg List.reverse hsplit
          simpa using hreverse
        refine ⟨more.reverse, tail, hname, ?_, ht, htaildot, rfl⟩
        rintro hmore
        rw [hname, hmore, List.nil_append, List.length_cons] at hlength
        omega
    · exact absurd rfl hempty

end SddGov.Evidence
