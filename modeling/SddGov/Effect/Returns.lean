import SddGov.Effect.Expand

/-!
# Programs that return

`Returns P p Q`: where the answers are as `P` says, the program ends with a
result, and `Q` holds of it. What `Runs` reads backwards from a result is here
followed forwards, exceptions included: nothing is raised on the way.
-/

namespace SddGov.Effect

variable {S : Sig} {ε α β : Type} {P : Event S → Prop}

/-- Answered as `P` says, the program returns, and the result is as `Q` says. -/
def Returns (P : Event S → Prop) (p : Prog S ε α) (Q : α → Prop) : Prop :=
  ∀ t x, Runs p t x → (∀ event ∈ t, P event) → ∃ a, x = .ok a ∧ Q a

namespace Returns

variable {Q : α → Prop} {Q' : β → Prop}

theorem ret {a : α} (h : Q a) : Returns P (.ret a : Prog S ε α) Q := by
  intro t x hr _
  exact ⟨a, (runs_ret hr).2, h⟩

theorem ofExcept {y : Except ε α} {a : α} (hy : y = .ok a) (h : Q a) :
    Returns P (Prog.ofExcept y : Prog S ε α) Q := by
  subst hy
  exact ret h

theorem call {o : S.Op} {k : S.Resp o → Prog S ε α} (h : ∀ r, P ⟨o, r⟩ → Returns P (k r) Q) :
    Returns P (.call o k) Q := by
  intro t x hr hP
  obtain ⟨r, t', rfl, hk⟩ := runs_call hr
  have hfirst := hP ⟨o, r⟩ (List.mem_cons_self ..)
  exact h r hfirst t' x hk fun event he => hP event (List.mem_cons_of_mem _ he)

/-- On with the result; what would handle an exception is not reached. -/
theorem handle {p : Prog S ε α} {f : α → Prog S ε β} {g : ε → Prog S ε β} (hp : Returns P p Q)
    (hf : ∀ a, Q a → Returns P (f a) Q') : Returns P (p.handle f g) Q' := by
  intro t x hr hP
  obtain ⟨t₁, t₂, y, rfl, h₁, h₂⟩ := runs_handle hr
  obtain ⟨a, rfl, ha⟩ := hp _ _ h₁ fun event he => hP event (List.mem_append_left _ he)
  exact hf a ha _ _ h₂ fun event he => hP event (List.mem_append_right _ he)

end Returns

/-! ## Exceptions -/

/-- Answered as `P` says, the program raises nothing but what `E` allows. -/
def Raises (P : Event S → Prop) (p : Prog S ε α) (E : ε → Prop) : Prop :=
  ∀ t e, Runs p t (.error e) → (∀ event ∈ t, P event) → E e

namespace Raises

variable {ε' : Type} {E : ε → Prop} {E' : ε' → Prop}

theorem ret (a : α) : Raises P (.ret a : Prog S ε α) E := by
  intro t e hr _
  exact absurd (runs_ret hr).2 (by simp)

theorem raise {e : ε} (h : E e) : Raises P (.raise e : Prog S ε α) E := by
  intro t e' hr _
  obtain rfl := Except.error.inj (runs_raise hr).2
  exact h

theorem ofExcept {y : Except ε α} (h : ∀ e, y = .error e → E e) :
    Raises P (Prog.ofExcept y : Prog S ε α) E := by
  intro t e hr _
  exact h e (runs_ofExcept hr).2.symm

theorem call {o : S.Op} {k : S.Resp o → Prog S ε α} (h : ∀ r, P ⟨o, r⟩ → Raises P (k r) E) :
    Raises P (.call o k) E := by
  intro t e hr hP
  obtain ⟨r, t', rfl, hk⟩ := runs_call hr
  have hfirst := hP ⟨o, r⟩ (List.mem_cons_self ..)
  exact h r hfirst t' e hk fun event he => hP event (List.mem_cons_of_mem _ he)

/-- A handler meets only the exceptions of the program. -/
theorem handle {p : Prog S ε α} {f : α → Prog S ε' β} {g : ε → Prog S ε' β} (hp : Raises P p E)
    (hf : ∀ a, Raises P (f a) E') (hg : ∀ e, E e → Raises P (g e) E') :
    Raises P (p.handle f g) E' := by
  intro t e hr hP
  obtain ⟨t₁, t₂, y, rfl, h₁, h₂⟩ := runs_handle hr
  have hfirst : ∀ event ∈ t₁, P event := fun event he => hP event (List.mem_append_left _ he)
  have hrest : ∀ event ∈ t₂, P event := fun event he => hP event (List.mem_append_right _ he)
  cases y with
  | ok a => exact hf a t₂ e h₂ hrest
  | error e₁ => exact hg e₁ (hp t₁ e₁ h₁ hfirst) t₂ e h₂ hrest

theorem bind {p : Prog S ε α} {f : α → Prog S ε β} (hp : Raises P p E)
    (hf : ∀ a, Raises P (f a) E) : Raises P (p.handle f .raise) E :=
  hp.handle hf fun _ he => raise he

theorem tryFinally {p : Prog S ε α} {fin : Prog S ε Unit} (hp : Raises P p E)
    (hfin : Raises P fin E) : Raises P (p.tryFinally fin) E :=
  hp.handle (fun a => hfin.bind fun _ => ret a) fun _ he => hfin.bind fun _ => raise he

theorem ite {c : Prop} [Decidable c] {p q : Prog S ε α} (hp : Raises P p E) (hq : Raises P q E) :
    Raises P (if c then p else q) E := by
  split
  · exact hp
  · exact hq

end Raises

/-! ## Programs in the place of calls -/

variable {body : (o : S.Op) → Option (Prog S ε (S.Resp o))}

/-- Expanding commutes with sequencing. -/
theorem expand_handle (p : Prog S ε α) (f : α → Prog S ε β) :
    (p.handle f .raise).expand body = (p.expand body).handle
    (fun a => (f a).expand body) .raise := by
  have hassoc {γ : Type} (q : Prog S ε γ) (g : γ → Prog S ε α) (k : α → Prog S ε β) :
      (q.handle g .raise).handle k .raise = q.handle (fun c => (g c).handle k .raise) .raise := by
    induction q with
    | ret c => rfl
    | raise e => rfl
    | call o q ih =>
      simp only [Prog.handle_call, ih]
  induction p with
  | ret a => rfl
  | raise e => rfl
  | call o k ih =>
    rw [Prog.handle_call, Prog.expand, Prog.expand]
    split
    · simp only [Prog.handle_call, ih]
    · simp only [hassoc, ih]

theorem Returns.expand_bind {p : Prog S ε α} {f : α → Prog S ε β} {Q : α → Prop} {Q' : β → Prop}
    (hp : Returns P (p.expand body) Q) (hf : ∀ a, Q a → Returns P ((f a).expand body) Q') :
    Returns P ((p.handle f .raise).expand body) Q' := by
  rw [expand_handle]
  exact hp.handle hf

/-- A program without such calls stays as it is. -/
theorem expand_eq_self {p : Prog S ε α} (h : p.Calls fun o => body o = none) :
    p.expand body = p := by
  induction p with
  | ret a => rfl
  | raise e => rfl
  | call o k ih =>
    rw [Prog.expand, h.1]
    dsimp only
    congr 1
    funext r
    exact ih r (h.2 r)

/-- A call is its program. -/
theorem expand_perform {o : S.Op} {q : Prog S ε (S.Resp o)} (h : body o = some q) :
    (Prog.perform o : Prog S ε (S.Resp o)).expand body = q := by
  have hret (q : Prog S ε (S.Resp o)) : q.handle .ret .raise = q := by
    induction q with
    | ret a => rfl
    | raise e => rfl
    | call o k ih => simp only [Prog.handle_call, ih]
  unfold Prog.perform
  rw [Prog.expand, h]
  exact hret q

end SddGov.Effect
