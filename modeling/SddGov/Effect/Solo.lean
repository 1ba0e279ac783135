import SddGov.Effect.Machine

/-!
# One program among others

A single program on a world that others change between its calls. What they can
do is `Solo.env`, a preorder, which may leave alone what the program holds.

`Hoare` is a triple for such a program: precondition and postcondition have to
survive the others, an invariant holds after every call, and there is one rule
for each way to build a program. `Hoare.run` reads a triple as a statement about
every interleaving.
-/

namespace SddGov.Effect

variable {S : Sig} {W ε ε' α β : Type}

/-- The calls of one program and what goes on around it. -/
structure Solo (W : Type) (S : Sig) where
  allows : W → (o : S.Op) → S.Resp o → Prop
  next : W → (o : S.Op) → S.Resp o → W
  /-- what the others do between two calls -/
  env : W → W → Prop
  refl : ∀ w, env w w
  trans : ∀ w₁ w₂ w₃, env w₁ w₂ → env w₂ w₃ → env w₁ w₃

/-- The program as the only thread of a machine. -/
def Solo.sem (A : Solo W S) : Sem Unit W S where
  allows _ := A.allows
  next _ := A.next
  exit _ w := w
  env := A.env

/-- The start of the program. -/
def Solo.start (w : W) (p : Prog S ε α) : Conf Unit W S ε α := ⟨w, fun _ => some p⟩

/-- A fact that the others keep. -/
def Solo.Stable (A : Solo W S) (P : W → Prop) : Prop := ∀ w w', A.env w w' → P w → P w'

/-- The discipline of an invariant the others keep. -/
def Solo.discipline (A : Solo W S) (inv : W → Prop) (hinv : A.Stable inv) :
    Discipline A.sem Unit where
  inv s := inv s.1
  rely i s s' := i = some () → A.env s.1 s'.1
  refl _ s _ := A.refl s.1
  trans _ s₁ s₂ s₃ h h' hi := A.trans s₁.1 s₂.1 s₃.1 (h hi) (h' hi)
  exit _ s hs := ⟨(), hs, fun _ _ _ => A.refl s.1⟩
  env s w hs hw := ⟨(), hinv s.1 w hw hs, fun _ _ => hw⟩

variable {A : Solo W S} {inv : W → Prop} {hinv : A.Stable inv}

/-- From `P` the program keeps `inv` with every call and ends in `Q`, whatever the others do. -/
def Hoare (A : Solo W S) {inv : W → Prop} (hinv : A.Stable inv) (P : W → Prop) (p : Prog S ε α)
    (Q : Outcome ε α → W → Prop) : Prop :=
  ∀ w, inv w → P w → (A.discipline inv hinv).Safe () (fun x s => Q x s.1) p (w, ())

theorem Hoare.ret {P : W → Prop} {a : α} {Q : Outcome ε α → W → Prop} (hP : A.Stable P)
    (h : ∀ w, P w → Q (.ok a) w) : Hoare A hinv P (Prog.ret a) Q :=
  fun w _ hw s hs _ => h s.1 (hP w s.1 (hs rfl) hw)

theorem Hoare.raise {P : W → Prop} {e : ε} {Q : Outcome ε α → W → Prop} (hP : A.Stable P)
    (h : ∀ w, P w → Q (.error e) w) : Hoare A hinv P (Prog.raise e) Q :=
  fun w _ hw s hs _ => h s.1 (hP w s.1 (hs rfl) hw)

/-- The rule of one call and what comes after it. -/
theorem Hoare.call {P : W → Prop} {o : S.Op} {k : S.Resp o → Prog S ε α} {P' : S.Resp o → W → Prop}
    {Q : Outcome ε α → W → Prop} (hP : A.Stable P)
    (h : ∀ w r, inv w → P w → A.allows w o r → inv (A.next w o r) ∧ P' r (A.next w o r))
    (hk : ∀ r, Hoare A hinv (P' r) (k r) Q) : Hoare A hinv P (Prog.call o k) Q := by
  intro w _ hw s hs hinvs
  refine ⟨trivial, fun r hr => ?_⟩
  obtain ⟨hnext, hP'⟩ := h s.1 r hinvs (hP w s.1 (hs rfl) hw) hr
  refine ⟨(), hnext, ?_, hk r _ hnext hP'⟩
  intro j hj hsome
  exact absurd hsome hj

theorem Hoare.perform {P : W → Prop} {o : S.Op} {Q : Outcome ε (S.Resp o) → W → Prop}
    (hP : A.Stable P)
    (hQ : ∀ r, A.Stable (Q (.ok r)))
    (h : ∀ w r, inv w → P w → A.allows w o r → inv (A.next w o r) ∧ Q (.ok r) (A.next w o r)) :
    Hoare A hinv P (Prog.perform o) Q :=
  Hoare.call hP h fun r => Hoare.ret (hQ r) fun _ hw => hw

/-- The rule of `handle`. -/
theorem Hoare.handle {P : W → Prop} {R : Outcome ε α → W → Prop} {Q : Outcome ε' β → W → Prop}
    {p : Prog S ε α} {f : α → Prog S ε' β} {g : ε → Prog S ε' β} (h : Hoare A hinv P p R)
    (hf : ∀ a, Hoare A hinv (R (.ok a)) (f a) Q) (hg : ∀ e, Hoare A hinv (R (.error e)) (g e) Q) :
    Hoare A hinv P (p.handle f g) Q := by
  intro w hw hP
  exact (h w hw hP).handle hw (fun a s hs hR => hf a s.1 hs hR) fun e s hs hR => hg e s.1 hs hR

theorem Hoare.weaken {P P' : W → Prop} {Q Q' : Outcome ε α → W → Prop} {p : Prog S ε α}
    (h : Hoare A hinv P p Q) (hP : ∀ w, P' w → P w) (hQ : ∀ x w, Q x w → Q' x w) :
    Hoare A hinv P' p Q' :=
  fun w hw hP' => (h w hw (hP w hP')).mono fun x s _ hx => hQ x s.1 hx

theorem Hoare.pure {P : Prop} {p : Prog S ε α} {R : W → Prop} {Q : Outcome ε α → W → Prop}
    (h : P → Hoare A hinv R p Q) : Hoare A hinv (fun w => P ∧ R w) p Q :=
  fun w hw hP => h hP.1 w hw hP.2

/-- The program that an outcome ends as. -/
def Prog.ofOutcome : Outcome ε α → Prog S ε α
  | .ok a => .ret a
  | .error e => .raise e

/-- **A triple holds of every run**: the invariant at every moment, the
postcondition where the program has ended. -/
theorem Hoare.run {P : W → Prop} {p : Prog S ε α} {Q : Outcome ε α → W → Prop}
    (h : Hoare A hinv P p Q)
    {w : W} (hw : inv w) (hP : P w) {c : Conf Unit W S ε α} (hc : A.sem.Reach (Solo.start w p) c) :
    inv c.world ∧ ∀ x, c.threads () = some (Prog.ofOutcome x) → Q x c.world := by
  have hsafe : (A.discipline inv hinv).AllSafe (fun _ x s => Q x s.1) (Solo.start w p).threads
    (w, ()) := by
    intro i q hq
    obtain rfl := Option.some.inj hq
    exact h w hw hP
  obtain ⟨g, hi, hs, -⟩ := Discipline.run hc hw hsafe
  refine ⟨hi, fun x hx => ?_⟩
  have hend := hs () _ hx
  cases x with
  | ok a => exact hend (c.world, ()) (fun _ => A.refl _) hi
  | error e => exact hend (c.world, ()) (fun _ => A.refl _) hi

/-- A run that starts with a call and an answer to it. -/
theorem Solo.reach_call {o : S.Op} {k : S.Resp o → Prog S ε α} {w : W} (r : S.Resp o)
    (hr : A.allows w o r)
    {c : Conf Unit W S ε α} (hc : A.sem.Reach (Solo.start (A.next w o r) (k r)) c) :
    A.sem.Reach (Solo.start w (.call o k)) c := by
  have hstep : A.sem.Step (Solo.start w (.call o k)) (Solo.start (A.next w o r) (k r)) := by
    have hact := @Sem.Step.act S Unit W ε α _ A.sem (Solo.start w (.call o k)) () o k r rfl hr
    have hthreads : Function.update (Solo.start w (.call o k)).threads () (some (k r)) = fun _ =>
      some (k r) := by
      funext i
      exact Function.update_self ..
    rw [hthreads] at hact
    exact hact
  exact .head hstep hc

/-- A run in which the others take the first step. -/
theorem Solo.reach_env {w w' : W} {p : Prog S ε α} (he : A.env w w') {c : Conf Unit W S ε α}
    (hc : A.sem.Reach (Solo.start w' p) c) : A.sem.Reach (Solo.start w p) c := by
  have hstep : A.sem.Step (Solo.start w p) (Solo.start w' p) := .env he
  exact .head hstep hc

end SddGov.Effect
