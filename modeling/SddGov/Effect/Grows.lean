import Mathlib.Tactic.Common

/-!
# Tables that only grow

A table is a list of rows. `Grows R` says what became of it: every row is still
there, in its place and changed only as `R` allows, and new ones follow. With a
key that `R` keeps, a row is known by its key for good (`Grows.row`).
-/

namespace SddGov.Effect

variable {α κ : Type} {R : α → α → Prop}

/-- Every row has stayed or changed by `R`, and rows were added at the end. -/
inductive Grows (R : α → α → Prop) : List α → List α → Prop
  | nil (new : List α) : Grows R [] new
  | cons {a b : α} {as bs : List α} (h : R a b) (hs : Grows R as bs) : Grows R (a :: as) (b :: bs)

namespace Grows

theorem refl (hR : ∀ a, R a a) (rows : List α) : Grows R rows rows := by
  induction rows with
  | nil => exact .nil []
  | cons a rows ih => exact .cons (hR a) ih

theorem trans (hR : ∀ a b c, R a b → R b c → R a c) {rows₁ rows₂ rows₃ : List α}
    (h : Grows R rows₁ rows₂) (h' : Grows R rows₂ rows₃) : Grows R rows₁ rows₃ := by
  induction h generalizing rows₃ with
  | nil => exact .nil _
  | cons hab _ ih =>
    cases h' with
    | cons hbc h' => exact .cons (hR _ _ _ hab hbc) (ih h')

theorem append (hR : ∀ a, R a a) (rows new : List α) : Grows R rows (rows ++ new) := by
  induction rows with
  | nil => exact .nil new
  | cons a rows ih => exact .cons (hR a) ih

theorem map {f : α → α} {rows : List α} (h : ∀ a ∈ rows, R a (f a)) :
    Grows R rows (rows.map f) := by
  induction rows with
  | nil => exact .nil []
  | cons a rows ih =>
    exact .cons (h a (List.mem_cons_self ..)) (ih fun b hb => h b (List.mem_cons_of_mem _ hb))

/-- What has become of a row. -/
theorem row {rows rows' : List α} (h : Grows R rows rows') {a : α} (ha : a ∈ rows) :
    ∃ b ∈ rows', R a b := by
  induction h with
  | nil => exact absurd ha (by simp)
  | cons hab _ ih =>
    rcases List.mem_cons.mp ha with rfl | ha
    · exact ⟨_, List.mem_cons_self .., hab⟩
    · obtain ⟨b, hb, hR⟩ := ih ha
      exact ⟨b, List.mem_cons_of_mem _ hb, hR⟩

end Grows

/-! ## Keys -/

/-- No two rows have the same key. -/
def Distinct (key : α → κ) (rows : List α) : Prop := rows.Pairwise fun a b => key a ≠ key b

namespace Distinct

variable {key : α → κ} {rows : List α}

/-- Rows with different keys are equal when their keys are. -/
theorem eq (h : Distinct key rows) {a b : α} (ha : a ∈ rows) (hb : b ∈ rows) (hk : key a = key b) :
    a = b := by
  induction rows with
  | nil => exact absurd ha (by simp)
  | cons c rows ih =>
    obtain ⟨hc, hrows⟩ := List.pairwise_cons.mp h
    rcases List.mem_cons.mp ha with hac | ha'
    · rcases List.mem_cons.mp hb with hbc | hb'
      · rw [hac, hbc]
      · exact absurd (hac ▸ hk) (hc b hb')
    · rcases List.mem_cons.mp hb with hbc | hb'
      · exact absurd (hbc ▸ hk.symm) (hc a ha')
      · exact ih hrows ha' hb'

theorem append (h : Distinct key rows) {a : α} (ha : ∀ b ∈ rows, key b ≠ key a) :
    Distinct key (rows ++ [a]) := by
  refine List.pairwise_append.mpr ⟨h, List.pairwise_singleton _ _, ?_⟩
  intro b hb c hc
  obtain rfl := List.mem_singleton.mp hc
  exact ha b hb

theorem map (h : Distinct key rows) {f : α → α} (hf : ∀ a ∈ rows, key (f a) = key a) :
    Distinct key (rows.map f) := by
  refine List.pairwise_map.mpr (h.imp_of_mem fun ha hb hab => ?_)
  rw [hf _ ha, hf _ hb]
  exact hab

end Distinct

end SddGov.Effect
