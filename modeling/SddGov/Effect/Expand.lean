import SddGov.Effect.Prog

/-!
# Calls that are programs

A program may be written over calls that stand for programs of their own.
`expand` puts those in their place. A trace of the whole is a trace of the
program where each call has the answer its own program gave (`Expands`), so what
is known of the one carries over to the other.
-/

namespace SddGov.Effect

variable {S : Sig} {ε α β : Type}

/-- The program with its own programs in the place of the calls that stand for them. -/
def Prog.expand (body : (o : S.Op) → Option (Prog S ε (S.Resp o))) : Prog S ε α → Prog S ε α
  | .ret a => .ret a
  | .raise e => .raise e
  | .call o k =>
    match body o with
    | none => .call o fun r => (k r).expand body
    | some q => q.handle (fun r => (k r).expand body) .raise

/-- `Expands body t t'`: the trace `t` with the calls that stand for programs replaced by the
traces of these. -/
inductive Expands (body : (o : S.Op) → Option (Prog S ε (S.Resp o))) :
    List (Event S) → List (Event S) → Prop
  | nil : Expands body [] []
  | call {o : S.Op} {r : S.Resp o} {t t' : List (Event S)} (ho : body o = none) :
    Expands body t t' → Expands body (⟨o, r⟩ :: t) (⟨o, r⟩ :: t')
  | run {o : S.Op} {r : S.Resp o} {q : Prog S ε (S.Resp o)} {t t₁ t' : List (Event S)}
    (ho : body o = some q) :
    Runs q t₁ (.ok r) → Expands body t t' → Expands body (⟨o, r⟩ :: t) (t₁ ++ t')

variable {body : (o : S.Op) → Option (Prog S ε (S.Resp o))}

/-- A run of a program, and one of what follows it. -/
theorem runs_handle_ok {p : Prog S ε α} {f : α → Prog S ε β} {g : ε → Prog S ε β} {a : α}
    {t₁ t₂ : List (Event S)} {x : Outcome ε β} (h₁ : Runs p t₁ (.ok a)) (h₂ : Runs (f a) t₂ x) :
    Runs (p.handle f g) (t₁ ++ t₂) x := by
  induction p generalizing t₁ with
  | ret b =>
    obtain ⟨rfl, hb⟩ := runs_ret h₁
    obtain rfl := Except.ok.inj hb
    exact h₂
  | raise e => exact absurd (runs_raise h₁).2 (by simp)
  | call o k ih =>
    obtain ⟨r, t, rfl, h⟩ := runs_call h₁
    exact .call o (ih r h)

/-- A run of the expanded program is a run of the program with each call replaced by a run of its
body. -/
theorem runs_expand_iff {p : Prog S ε α} {t' : List (Event S)} {a : α} :
    Runs (p.expand body) t' (.ok a) ↔ ∃ t, Expands body t t' ∧ Runs p t (.ok a) := by
  constructor
  · intro h
    induction p generalizing t' with
    | ret b =>
      obtain ⟨rfl, hb⟩ := runs_ret h
      exact ⟨[], .nil, hb ▸ .ret b⟩
    | raise e => exact absurd (runs_raise h).2 (by simp)
    | call o k ih =>
      rw [Prog.expand] at h
      split at h
      · next hnone =>
        obtain ⟨r, t₂, rfl, hk⟩ := runs_call h
        obtain ⟨t, hexpands, hrun⟩ := ih r hk
        exact ⟨⟨o, r⟩ :: t, .call hnone hexpands, .call o hrun⟩
      · next q hsome =>
        obtain ⟨t₁, t₂, r, rfl, hq, hk⟩ := runs_bind h
        obtain ⟨t, hexpands, hrun⟩ := ih r hk
        exact ⟨⟨o, r⟩ :: t, .run hsome hq hexpands, .call o hrun⟩
  · intro h
    obtain ⟨t, hexpands, hrun⟩ := h
    induction hexpands generalizing p with
    | nil =>
      cases hrun
      exact .ret a
    | call ho _ ih =>
      cases hrun with
      | call _ hk =>
        rw [Prog.expand, ho]
        exact .call _ (ih hk)
    | run ho hq _ ih =>
      cases hrun with
      | call _ hk =>
        rw [Prog.expand, ho]
        exact runs_handle_ok hq (ih hk)

/-- The run of the program behind one call of the trace. -/
theorem Expands.run_of_mem {t t' : List (Event S)} (h : Expands body t t') {o : S.Op} {r : S.Resp o}
    {q : Prog S ε (S.Resp o)} (hmem : ⟨o, r⟩ ∈ t) (ho : body o = some q) :
    ∃ t₁, Runs q t₁ (.ok r) ∧ ∀ event ∈ t₁, event ∈ t' := by
  induction h with
  | nil => exact absurd hmem (by simp)
  | call ho' _ ih =>
    rcases List.mem_cons.mp hmem with heq | hmem
    · cases heq
      exact absurd (ho'.symm.trans ho) (by simp)
    · obtain ⟨t₁, hrun, hsub⟩ := ih hmem
      exact ⟨t₁, hrun, fun event he => List.mem_cons_of_mem _ (hsub event he)⟩
  | run ho' hq _ ih =>
    rcases List.mem_cons.mp hmem with heq | hmem
    · cases heq
      obtain rfl := Option.some.inj (ho'.symm.trans ho)
      exact ⟨_, hq, fun event he => List.mem_append_left _ he⟩
    · obtain ⟨t₁, hrun, hsub⟩ := ih hmem
      exact ⟨t₁, hrun, fun event he => List.mem_append_right _ (hsub event he)⟩

/-- A call that stands for itself is in both traces. -/
theorem Expands.mem {t t' : List (Event S)} (h : Expands body t t') {event : Event S}
    (hmem : event ∈ t) (ho : body event.1 = none) : event ∈ t' := by
  induction h with
  | nil => exact absurd hmem (by simp)
  | call _ _ ih =>
    rcases List.mem_cons.mp hmem with rfl | hmem
    · exact List.mem_cons_self ..
    · exact List.mem_cons_of_mem _ (ih hmem)
  | run ho' _ _ ih =>
    rcases List.mem_cons.mp hmem with rfl | hmem
    · exact absurd (ho'.symm.trans ho) (by simp)
    · exact List.mem_append_right _ (ih hmem)

end SddGov.Effect
