import Mathlib.Tactic.Common

/-!
# Checks

A check can raise and collects messages. `Clean p a`: `p` ends with `a` and has
no message. `Quieter q p`: where `p` is clean, `q` is clean with the same
result. A check that leaves out tests of another one is quieter than it, and
`Quieter` goes through sequences and loops, so two versions of a long check are
compared test by test.
-/

namespace SddGov.Effect

variable {E M α β σ : Type}

/-- Raises an `E`, or returns an `α` with the messages it has collected. -/
def Check (E M α : Type) : Type := Except E (α × List M)

namespace Check

/-- The messages of the first, then those of the second. -/
def andThen (p : Check E M α) (f : α → Check E M β) : Check E M β :=
  match p with
  | .error e => .error e
  | .ok (a, messages) =>
    match f a with
    | .error e => .error e
    | .ok (b, more) => .ok (b, messages ++ more)

instance : Monad (Check E M) where
  pure a := .ok (a, [])
  bind := andThen

/-- A message. -/
def report (message : M) : Check E M Unit := .ok ((), [message])

/-- A message where the condition holds. -/
def reportIf (c : Bool) (message : M) : Check E M Unit := if c then report message else pure ()

/-- Messages, one after another. -/
def reportAll (messages : List M) : Check E M Unit := .ok ((), messages)

/-- An exception. -/
def raise (e : E) : Check E M α := .error e

/-- A computation without messages. -/
def lift (x : Except E α) : Check E M α :=
  match x with
  | .error e => .error e
  | .ok a => .ok (a, [])

/-- A loop with a state, over the elements and their numbers. -/
def loop (f : σ → Nat → α → Check E M σ) : σ → Nat → List α → Check E M σ
  | s, _, [] => pure s
  | s, index, x :: xs => do
    let s' ← f s index x
    loop f s' (index + 1) xs

/-! ## Checks without a message -/

/-- Ends with `a` and without a message. -/
def Clean (p : Check E M α) (a : α) : Prop := p = .ok (a, [])

theorem clean_iff {a b : α} {messages : List M} :
    Clean (.ok (a, messages) : Except E (α × List M)) b ↔ a = b ∧ messages = [] := by
  constructor
  · intro h
    have hpair := Except.ok.inj h
    exact ⟨congrArg Prod.fst hpair, congrArg Prod.snd hpair⟩
  · rintro ⟨rfl, rfl⟩
    rfl

theorem not_clean_error {e : E} {a : α} : ¬ Clean (.error e : Except E (α × List M)) a := by
  intro h
  exact absurd (show (Except.error e : Except E (α × List M)) = .ok (a, []) from h) (by simp)

@[simp] theorem clean_pure {a b : α} : Clean (pure a : Check E M α) b ↔ a = b := by
  show Clean (.ok (a, []) : Except E (α × List M)) b ↔ _
  rw [clean_iff, and_iff_left rfl]

/-- Two checks find nothing exactly if each of them does. -/
theorem clean_bind {p : Check E M α} {f : α → Check E M β} {b : β} :
    Clean (p >>= f) b ↔ ∃ a, Clean p a ∧ Clean (f a) b := by
  show Clean (andThen p f) b ↔ _
  unfold andThen
  rcases p with e | ⟨a, messages⟩
  · constructor
    · intro h
      exact absurd h not_clean_error
    · rintro ⟨a, ha, -⟩
      exact absurd ha not_clean_error
  · constructor
    · intro h
      dsimp only at h
      split at h
      · exact absurd h not_clean_error
      · next b' more hf =>
        obtain ⟨hb, happend⟩ := clean_iff.mp h
        obtain ⟨hmessages, hmore⟩ := List.append_eq_nil_iff.mp happend
        refine ⟨a, clean_iff.mpr ⟨rfl, hmessages⟩, ?_⟩
        rw [hf]
        exact clean_iff.mpr ⟨hb, hmore⟩
    · rintro ⟨a', ha, hb⟩
      obtain ⟨rfl, rfl⟩ := clean_iff.mp ha
      have hf : f a = .ok (b, []) := hb
      dsimp only
      rw [hf]
      exact clean_iff.mpr ⟨rfl, rfl⟩

@[simp] theorem clean_report {message : M} {u : Unit} :
    ¬ Clean (report message : Check E M Unit) u := by
  intro h
  exact absurd (clean_iff.mp h).2 (by simp)

@[simp] theorem clean_reportIf {c : Bool} {message : M} {u : Unit} :
    Clean (reportIf c message : Check E M Unit) u ↔ c = false := by
  unfold reportIf
  cases c <;> simp

@[simp] theorem clean_reportAll {messages : List M} {u : Unit} :
    Clean (reportAll messages : Check E M Unit) u ↔ messages = [] := by
  show Clean (.ok ((), messages) : Except E (Unit × List M)) u ↔ _
  rw [clean_iff, and_iff_right rfl]

@[simp] theorem clean_raise {e : E} {a : α} : ¬ Clean (raise e : Check E M α) a := not_clean_error

/-- A lifted value finds nothing. -/
theorem clean_lift {x : Except E α} {a : α} : Clean (lift x : Check E M α) a ↔ x = .ok a := by
  unfold lift
  cases x with
  | error e => simp [not_clean_error]
  | ok b =>
    show Clean (.ok (b, []) : Except E (α × List M)) a ↔ _
    rw [clean_iff, and_iff_left rfl]
    constructor
    · rintro rfl
      rfl
    · exact Except.ok.inj

/-- A loop that notes the names it has seen, over elements with different names. -/
theorem clean_loop_fresh {τ : Type} {f : List β → Nat → α → Check E M (List β)} {row : τ → α}
    {name : τ → β}
    {good : τ → Prop} {xs : List τ} (seen seen' : List β) (index : Nat)
    (hstep : ∀ x ∈ xs, ∀ seen index seen', name x ∉ seen →
      (Clean (f seen index (row x)) seen' ↔ good x ∧ seen' = name x :: seen))
    (hnodup : (xs.map name).Nodup) (hfresh : ∀ x ∈ xs, name x ∉ seen) :
    Clean (loop f seen index (xs.map row)) seen' ↔ (∀ x ∈ xs, good x)
    ∧ seen' = (xs.map name).reverse ++ seen := by
  induction xs generalizing seen index with
  | nil =>
    show Clean (pure seen) seen' ↔ _
    simp [eq_comm]
  | cons x xs ih =>
    rw [List.map_cons, List.nodup_cons] at hnodup
    have hrest : ∀ y ∈ xs, name y ∉ name x :: seen := by
      intro y hy hmem
      rcases List.mem_cons.mp hmem with heq | hmem
      · exact hnodup.1 (heq ▸ List.mem_map_of_mem hy)
      · exact hfresh y (List.mem_cons_of_mem _ hy) hmem
    have hxs := ih (name x :: seen) (index + 1) (fun y hy => hstep y (List.mem_cons_of_mem _ hy))
      hnodup.2 hrest
    have hx := fun s => hstep x (List.mem_cons_self ..) seen index s
      (hfresh x (List.mem_cons_self ..))
    show Clean (f seen index (row x) >>= fun s => loop f s (index + 1) (xs.map row)) seen' ↔ _
    rw [clean_bind]
    constructor
    · rintro ⟨s, hfirst, hothers⟩
      obtain ⟨hgood, rfl⟩ := (hx s).mp hfirst
      obtain ⟨hgoods, rfl⟩ := hxs.mp hothers
      refine ⟨List.forall_mem_cons.mpr ⟨hgood, hgoods⟩, ?_⟩
      simp
    · rintro ⟨hgood, rfl⟩
      obtain ⟨hfirst, hothers⟩ := List.forall_mem_cons.mp hgood
      refine ⟨name x :: seen, (hx _).mpr ⟨hfirst, rfl⟩, ?_⟩
      rw [hxs]
      exact ⟨hothers, by simp⟩

/-! ## Quieter checks -/

/-- Where `p` has no message, `q` has none either and ends the same. -/
def Quieter (q p : Check E M α) : Prop := ∀ a, Clean p a → Clean q a

theorem Quieter.refl (p : Check E M α) : Quieter p p := fun _ h => h

theorem Quieter.bind {p q : Check E M α} {f g : α → Check E M β} (hp : Quieter q p)
    (hf : ∀ a, Quieter (g a) (f a)) : Quieter (q >>= g) (p >>= f) := by
  intro b h
  obtain ⟨a, ha, hb⟩ := clean_bind.mp h
  exact clean_bind.mpr ⟨a, hp a ha, hf a b hb⟩

theorem Quieter.after (p : Check E M α) {f g : α → Check E M β} (hf : ∀ a, Quieter (g a) (f a)) :
    Quieter (p >>= g) (p >>= f) := (Quieter.refl p).bind hf

theorem Quieter.ite {c : Prop} [Decidable c] {p p' q q' : Check E M α} (hp : Quieter q p)
    (hp' : Quieter q' p') :
    Quieter (if c then q else q') (if c then p else p') := by
  by_cases h : c
  · rw [if_pos h, if_pos h]
    exact hp
  · rw [if_neg h, if_neg h]
    exact hp'

/-- A check that does nothing is quieter than any other. -/
theorem Quieter.nothing (p : Check E M Unit) : Quieter (pure ()) p := fun _ _ => clean_pure.mpr rfl

theorem Quieter.loop {f g : σ → Nat → α → Check E M σ}
    (h : ∀ s index x, Quieter (g s index x) (f s index x))
    (s : σ) (index : Nat) (xs : List α) : Quieter (loop g s index xs) (loop f s index xs) := by
  induction xs generalizing s index with
  | nil => exact Quieter.refl _
  | cons x xs ih => exact (h s index x).bind fun s' => ih s' (index + 1)

end Check

end SddGov.Effect
