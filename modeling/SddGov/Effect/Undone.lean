import SddGov.Effect.Prog

/-!
# What a failure leaves undone

A program whose last step is the one that changes the world has changed nothing
where it fails before it. `Undone mark failed p` says so of the traces of `p`:
one that ends with an error of the class `failed` has no marked event. There is
one rule for each way to build a program; after a step that may be marked,
what follows must not fail with such an error any more (`Unfailing`).
-/

namespace SddGov.Effect

variable {S : Sig} {ε ε' α β : Type}

/-- Where the program fails with an error of the class, none of its events is marked. -/
def Undone (mark : Event S → Prop) (failed : ε → Prop) (p : Prog S ε α) : Prop :=
  ∀ t e, Runs p t (.error e) → failed e → ∀ event ∈ t, ¬mark event

/-- The program does not fail with an error of the class. -/
def Unfailing (failed : ε → Prop) (p : Prog S ε α) : Prop := ∀ t e, Runs p t (.error e) → ¬failed e

/-- The answers of a call do not make a marked event. -/
def Unmarked (mark : Event S → Prop) (o : S.Op) : Prop := ∀ r, ¬mark ⟨o, r⟩

variable {mark : Event S → Prop} {failed : ε → Prop}

theorem Prog.Calls.unmarked {p : Prog S ε α} (hp : p.Calls (Unmarked mark)) {t : List (Event S)}
    {x : Outcome ε α} (h : Runs p t x) : ∀ event ∈ t, ¬mark event :=
  fun event he => hp.runs h event he event.2

/-! ## Programs that do not fail so -/

namespace Unfailing

theorem ret (a : α) : Unfailing failed (.ret a : Prog S ε α) :=
  fun _ _ h => absurd (runs_ret h).2 (by simp)

theorem raise {e : ε} (h : ¬failed e) : Unfailing failed (.raise e : Prog S ε α) := by
  intro t e' hr
  obtain rfl := Except.error.inj (runs_raise hr).2
  exact h

theorem perform (o : S.Op) : Unfailing failed (Prog.perform o : Prog S ε (S.Resp o)) := by
  intro t e h
  obtain ⟨r, t', -, hret⟩ := runs_call h
  exact absurd (runs_ret hret).2 (by simp)

theorem bind {p : Prog S ε α} {f : α → Prog S ε β} (hp : Unfailing failed p)
    (hf : ∀ a, Unfailing failed (f a)) : Unfailing failed (p.handle f .raise) := by
  intro t e h
  obtain ⟨t₁, t₂, y, -, h₁, h₂⟩ := runs_handle h
  cases y with
  | ok a => exact hf a _ _ h₂
  | error e' =>
    obtain rfl := Except.error.inj (runs_raise h₂).2
    exact hp _ _ h₁

end Unfailing

/-! ## Programs that fail before they change anything -/

namespace Undone

theorem quiet {p : Prog S ε α} (hp : p.Calls (Unmarked mark)) : Undone mark failed p :=
  fun _ _ h _ => hp.unmarked h

theorem unfailing {p : Prog S ε α} (hp : Unfailing failed p) : Undone mark failed p :=
  fun _ _ h hfailed => absurd hfailed (hp _ _ h)

/-- First a part that changes nothing. -/
theorem after {p : Prog S ε α} {f : α → Prog S ε β} (hp : p.Calls (Unmarked mark))
    (hf : ∀ a, Undone mark failed (f a)) : Undone mark failed (p.handle f .raise) := by
  intro t e h hfailed
  obtain ⟨t₁, t₂, y, rfl, h₁, h₂⟩ := runs_handle h
  refine List.forall_mem_append.mpr ⟨hp.unmarked h₁, ?_⟩
  cases y with
  | ok a => exact hf a _ _ h₂ hfailed
  | error e' =>
    rw [(runs_raise h₂).1]
    simp

/-- Last a part that does not fail so. -/
theorem before {p : Prog S ε α} {f : α → Prog S ε β} (hp : Undone mark failed p)
    (hf : ∀ a, Unfailing failed (f a)) : Undone mark failed (p.handle f .raise) := by
  intro t e h hfailed
  obtain ⟨t₁, t₂, y, rfl, h₁, h₂⟩ := runs_handle h
  cases y with
  | ok a => exact absurd hfailed (hf a _ _ h₂)
  | error e' =>
    obtain ⟨rfl, he⟩ := runs_raise h₂
    obtain rfl := Except.error.inj he
    rw [List.append_nil]
    exact hp _ _ h₁ hfailed

/-- Cleaning up changes nothing, and what it raises is not of the class. -/
theorem tryFinally {p : Prog S ε α} {fin : Prog S ε Unit} (hp : Undone mark failed p)
    (hfin : fin.Calls (Unmarked mark)) (hfail : Unfailing failed fin) :
    Undone mark failed (p.tryFinally fin) := by
  intro t e h hfailed
  obtain ⟨t₁, t₂, y, rfl, h₁, h₂⟩ := runs_handle h
  cases y with
  | ok a => exact absurd hfailed ((hfail.bind fun _ => .ret a) _ _ h₂)
  | error e' =>
    obtain ⟨t₃, t₄, z, rfl, h₃, h₄⟩ := runs_handle h₂
    cases z with
    | error e'' =>
      obtain ⟨-, he⟩ := runs_raise h₄
      obtain rfl := Except.error.inj he
      exact absurd hfailed (hfail _ _ h₃)
    | ok u =>
      obtain ⟨rfl, he⟩ := runs_raise h₄
      obtain rfl := Except.error.inj he
      rw [List.append_nil]
      exact List.forall_mem_append.mpr ⟨hp _ _ h₁ hfailed, hfin.unmarked h₃⟩

end Undone

end SddGov.Effect
