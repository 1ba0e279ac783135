import Mathlib.Logic.Function.Basic
import Mathlib.Logic.Relation
import SddGov.Effect.Prog

/-!
# Programs on a shared world

Threads run programs on one world, one call at a time and in any order, and
any of them can be killed between two calls (`Sem.Step`). An answer carries
all the nondeterminism: `Sem.allows` says which answers a call can get in a
world, `Sem.next` is the world after it.

The proof rule is rely-guarantee with ghost state. A `Discipline` fixes an
invariant and, for each thread, what the others may do to the state while it
is between two calls (`rely`); the bystander `none` sees every step, so its
rely is a fact about the whole run. `Safe` is then a condition on one program
alone, and `Discipline.run` carries it through every interleaving.
-/

namespace SddGov.Effect

variable {S : Sig} {ι W Γ ε ε' α β : Type}

/-- What calls do to a shared world. -/
structure Sem (ι W : Type) (S : Sig) where
  /-- the answers thread `i` can get -/
  allows : ι → W → (o : S.Op) → S.Resp o → Prop
  /-- the world after an answer -/
  next : ι → W → (o : S.Op) → S.Resp o → W
  /-- what the end of a killed thread does -/
  exit : ι → W → W
  /-- what happens without any thread -/
  env : W → W → Prop

/-- A world and the threads that run on it; a killed thread is `none`. -/
structure Conf (ι W : Type) (S : Sig) (ε α : Type) where
  world : W
  threads : ι → Option (Prog S ε α)

/-- One step of any thread, a kill, or a move of the environment. -/
inductive Sem.Step [DecidableEq ι] (sem : Sem ι W S) : Conf ι W S ε α → Conf ι W S ε α → Prop
  | act {c : Conf ι W S ε α} {i : ι} {o : S.Op} {k : S.Resp o → Prog S ε α} (r : S.Resp o)
      (hp : c.threads i = some (.call o k)) (ha : sem.allows i c.world o r) :
      Sem.Step sem c ⟨sem.next i c.world o r, Function.update c.threads i (some (k r))⟩
  | kill {c : Conf ι W S ε α} (i : ι) :
      Sem.Step sem c ⟨sem.exit i c.world, Function.update c.threads i none⟩
  | env {c : Conf ι W S ε α} {w : W} (h : sem.env c.world w) : Sem.Step sem c ⟨w, c.threads⟩

/-- The steps of `sem` in which every call and its answer meet `P`. -/
def Sem.restrict (sem : Sem ι W S) (P : ι → W → (o : S.Op) → S.Resp o → Prop) : Sem ι W S :=
  { sem with allows := fun i w o r => sem.allows i w o r ∧ P i w o r }

/-- Any number of steps. -/
abbrev Sem.Reach [DecidableEq ι] (sem : Sem ι W S) : Conf ι W S ε α → Conf ι W S ε α → Prop :=
  Relation.ReflTransGen sem.Step

/-! ## Rely and guarantee -/

/-- An invariant on the world and its ghost state, what each thread may rely on,
and what it has to have established when it makes a call. -/
structure Discipline (sem : Sem ι W S) (Γ : Type) where
  inv : W × Γ → Prop
  /-- what holds in a thread's state at each of its calls -/
  pre : ι → S.Op → W × Γ → Prop := fun _ _ _ => True
  /-- `rely (some i)`: what others do while `i` runs; `rely none`: what anyone does -/
  rely : Option ι → W × Γ → W × Γ → Prop
  refl : ∀ i s, rely i s s
  trans : ∀ i s₁ s₂ s₃, rely i s₁ s₂ → rely i s₂ s₃ → rely i s₁ s₃
  exit : ∀ i s, inv s → ∃ g, inv (sem.exit i s.1, g)
    ∧ ∀ j, j ≠ some i → rely j s (sem.exit i s.1, g)
  env : ∀ s w, inv s → sem.env s.1 w → ∃ g, inv (w, g) ∧ ∀ j, rely j s (w, g)

variable {sem : Sem ι W S} (D : Discipline sem Γ)

/-- From `s`, under the interference it relies on, the program keeps the
invariant, does to the others only what they rely on, and ends with `Q`. -/
def Discipline.Safe (i : ι) (Q : Outcome ε α → W × Γ → Prop) : Prog S ε α → W × Γ → Prop
  | .ret a, s => ∀ s', D.rely (some i) s s' → D.inv s' → Q (.ok a) s'
  | .raise e, s => ∀ s', D.rely (some i) s s' → D.inv s' → Q (.error e) s'
  | .call o k, s => ∀ s', D.rely (some i) s s' → D.inv s' →
      D.pre i o s' ∧ ∀ r : S.Resp o, sem.allows i s'.1 o r →
        ∃ g, D.inv (sem.next i s'.1 o r, g)
          ∧ (∀ j, j ≠ some i → D.rely j s' (sem.next i s'.1 o r, g))
          ∧ Discipline.Safe i Q (k r) (sem.next i s'.1 o r, g)

variable {D}

/-- `Safe` survives the interference it relies on. -/
theorem Discipline.Safe.stable {i : ι} {Q : Outcome ε α → W × Γ → Prop} {p : Prog S ε α}
    {s s' : W × Γ} (h : D.Safe i Q p s) (hr : D.rely (some i) s s') : D.Safe i Q p s' := by
  cases p with
  | ret a => exact fun s'' hr' => h s'' (D.trans _ _ _ _ hr hr')
  | raise e => exact fun s'' hr' => h s'' (D.trans _ _ _ _ hr hr')
  | call o k => exact fun s'' hr' => h s'' (D.trans _ _ _ _ hr hr')

/-- A weaker postcondition is kept too, where the invariant helps to weaken it. -/
theorem Discipline.Safe.mono {i : ι} {Q Q' : Outcome ε α → W × Γ → Prop} {p : Prog S ε α}
    {s : W × Γ} (h : D.Safe i Q p s) (hq : ∀ x s, D.inv s → Q x s → Q' x s) :
    D.Safe i Q' p s := by
  induction p generalizing s with
  | ret a => exact fun s' hr hi => hq _ _ hi (h s' hr hi)
  | raise e => exact fun s' hr hi => hq _ _ hi (h s' hr hi)
  | call o k ih =>
    intro s' hr hi
    obtain ⟨hpre, h⟩ := h s' hr hi
    refine ⟨hpre, fun r ha => ?_⟩
    obtain ⟨g, h1, h2, h3⟩ := h r ha
    exact ⟨g, h1, h2, ih r h3⟩

/-- The rule of `handle`: where the first program ends, its continuation is safe. -/
theorem Discipline.Safe.handle {i : ι} {P : Outcome ε α → W × Γ → Prop}
    {Q : Outcome ε' β → W × Γ → Prop} {p : Prog S ε α} {f : α → Prog S ε' β}
    {g : ε → Prog S ε' β} {s : W × Γ} (h : D.Safe i P p s) (hi : D.inv s)
    (hf : ∀ a s, D.inv s → P (.ok a) s → D.Safe i Q (f a) s)
    (hg : ∀ e s, D.inv s → P (.error e) s → D.Safe i Q (g e) s) :
    D.Safe i Q (p.handle f g) s := by
  induction p generalizing s with
  | ret a => exact hf a s hi (h s (D.refl _ _) hi)
  | raise e => exact hg e s hi (h s (D.refl _ _) hi)
  | call o k ih =>
    intro s' hr hi'
    obtain ⟨hpre, h⟩ := h s' hr hi'
    refine ⟨hpre, fun r ha => ?_⟩
    obtain ⟨γ, h1, h2, h3⟩ := h r ha
    exact ⟨γ, h1, h2, ih r h3 h1⟩

/-- A postcondition on results alone. -/
def OnOk (R : α → W × Γ → Prop) (x : Outcome ε α) (s : W × Γ) : Prop := ∀ a, x = .ok a → R a s

theorem Discipline.Safe.raise {i : ι} {R : α → W × Γ → Prop} {e : ε} {s : W × Γ} :
    D.Safe i (OnOk R) (Prog.raise e) s :=
  fun _ _ _ _ h => absurd h (by simp)

theorem Discipline.Safe.ret {i : ι} {R : α → W × Γ → Prop} {a : α} {s : W × Γ}
    (hR : ∀ s', D.rely (some i) s s' → R a s → R a s') (h : R a s) :
    D.Safe i (OnOk R) (Prog.ret a : Prog S ε α) s := by
  intro s' hr _ b hb
  obtain rfl := Except.ok.inj hb
  exact hR s' hr h

/-- The rule of `p; f`. -/
theorem Discipline.Safe.bind {i : ι} {R : α → W × Γ → Prop} {R' : β → W × Γ → Prop}
    {p : Prog S ε α} {f : α → Prog S ε β} {s : W × Γ} (h : D.Safe i (OnOk R) p s) (hi : D.inv s)
    (hf : ∀ a s, D.inv s → R a s → D.Safe i (OnOk R') (f a) s) :
    D.Safe i (OnOk R') (p.handle f .raise) s :=
  h.handle hi (fun a s hi hR => hf a s hi (hR a rfl)) fun _ _ _ _ => .raise

/-- The rule of one call. -/
theorem Discipline.Safe.perform {i : ι} {o : S.Op} {Q : Outcome ε (S.Resp o) → W × Γ → Prop}
    {s : W × Γ} (hQ : ∀ r s s', D.rely (some i) s s' → Q (.ok r) s → Q (.ok r) s')
    (h : ∀ s', D.rely (some i) s s' → D.inv s' →
      D.pre i o s' ∧ ∀ r : S.Resp o, sem.allows i s'.1 o r →
        ∃ g, D.inv (sem.next i s'.1 o r, g)
          ∧ (∀ j, j ≠ some i → D.rely j s' (sem.next i s'.1 o r, g))
          ∧ Q (.ok r) (sem.next i s'.1 o r, g)) :
    D.Safe i Q (Prog.perform o) s := by
  intro s' hr hi
  obtain ⟨hpre, h⟩ := h s' hr hi
  refine ⟨hpre, fun r ha => ?_⟩
  obtain ⟨g, h1, h2, h3⟩ := h r ha
  exact ⟨g, h1, h2, fun s'' hr' _ => hQ r _ s'' hr' h3⟩

/-- A call that keeps the invariant and changes nothing anyone relies on, its caller included. -/
def Discipline.Quiet (D : Discipline sem Γ) (i : ι) (o : S.Op) : Prop :=
  ∀ s, D.inv s → D.pre i o s ∧ ∀ r : S.Resp o, sem.allows i s.1 o r →
    ∃ g, D.inv (sem.next i s.1 o r, g) ∧ ∀ j, D.rely j s (sem.next i s.1 o r, g)

/-- A program of quiet calls keeps every fact that interference keeps. -/
theorem Discipline.Safe.quiet {i : ι} {Q : W × Γ → Prop} {p : Prog S ε α} {s : W × Γ}
    (hQ : ∀ s s', D.rely (some i) s s' → Q s → Q s') (hp : p.Calls (D.Quiet i)) (hs : Q s) :
    D.Safe i (fun _ s => Q s) p s := by
  induction p generalizing s with
  | ret a => exact fun s' hr _ => hQ s s' hr hs
  | raise e => exact fun s' hr _ => hQ s s' hr hs
  | call o k ih =>
    intro s' hr hi
    obtain ⟨hpre, h⟩ := hp.1 s' hi
    refine ⟨hpre, fun r ha => ?_⟩
    obtain ⟨g, hinv, hrely⟩ := h r ha
    refine ⟨g, hinv, fun j _ => hrely j, ?_⟩
    apply ih r (hp.2 r)
    exact hQ _ _ (hrely (some i)) (hQ _ _ hr hs)

/-- Threads that are safe in a state. -/
def Discipline.AllSafe (D : Discipline sem Γ) (Q : ι → Outcome ε α → W × Γ → Prop)
    (threads : ι → Option (Prog S ε α)) (s : W × Γ) : Prop :=
  ∀ i p, threads i = some p → D.Safe i (Q i) p s

/-- One step keeps the invariant and the safety of every thread. -/
theorem Discipline.step [DecidableEq ι] {Q : ι → Outcome ε α → W × Γ → Prop} {c c' : Conf ι W S ε α}
    (h : sem.Step c c') {g : Γ} (hi : D.inv (c.world, g))
    (hs : D.AllSafe Q c.threads (c.world, g)) :
    ∃ g', D.inv (c'.world, g') ∧ D.AllSafe Q c'.threads (c'.world, g')
      ∧ D.rely none (c.world, g) (c'.world, g') := by
  cases h with
  | @act i o k r hp ha =>
    obtain ⟨g', h1, h2, h3⟩ := (hs i _ hp _ (D.refl _ _) hi).2 r ha
    refine ⟨g', h1, ?_, h2 none (by simp)⟩
    intro j p hj
    dsimp only at hj
    by_cases hji : j = i
    · subst hji
      rw [Function.update_self] at hj
      exact Option.some.inj hj ▸ h3
    · rw [Function.update_of_ne hji] at hj
      exact (hs j p hj).stable (h2 (some j) (by simpa using hji))
  | @kill i =>
    obtain ⟨g', h1, h2⟩ := D.exit i _ hi
    refine ⟨g', h1, ?_, h2 none (by simp)⟩
    intro j p hj
    dsimp only at hj
    by_cases hji : j = i
    · subst hji
      rw [Function.update_self] at hj
      exact absurd hj (by simp)
    · rw [Function.update_of_ne hji] at hj
      exact (hs j p hj).stable (h2 (some j) (by simpa using hji))
  | @env w he =>
    obtain ⟨g', h1, h2⟩ := D.env _ _ hi he
    exact ⟨g', h1, fun j p hj => (hs j p hj).stable (h2 (some j)), h2 none⟩

/-- **The run rule**: what is safe at the start is safe in every interleaving. -/
theorem Discipline.run [DecidableEq ι] {Q : ι → Outcome ε α → W × Γ → Prop} {c c' : Conf ι W S ε α}
    (h : sem.Reach c c') {g : Γ} (hi : D.inv (c.world, g))
    (hs : D.AllSafe Q c.threads (c.world, g)) :
    ∃ g', D.inv (c'.world, g') ∧ D.AllSafe Q c'.threads (c'.world, g')
      ∧ D.rely none (c.world, g) (c'.world, g') := by
  induction h with
  | refl => exact ⟨g, hi, hs, D.refl _ _⟩
  | tail _ hstep ih =>
    obtain ⟨g₁, hi₁, hs₁, hr₁⟩ := ih
    obtain ⟨g₂, hi₂, hs₂, hr₂⟩ := Discipline.step hstep hi₁ hs₁
    exact ⟨g₂, hi₂, hs₂, D.trans _ _ _ _ hr₁ hr₂⟩

/-- A finished thread has met its postcondition. -/
theorem Discipline.AllSafe.ended {Q : ι → Outcome ε α → W × Γ → Prop}
    {threads : ι → Option (Prog S ε α)} {s : W × Γ} (hs : D.AllSafe Q threads s) (hi : D.inv s)
    {i : ι} {a : α} (h : threads i = some (.ret a)) : Q i (.ok a) s :=
  hs i _ h s (D.refl _ _) hi

/-- A thread about to make a call has established what the call asks for. -/
theorem Discipline.AllSafe.pre {Q : ι → Outcome ε α → W × Γ → Prop}
    {threads : ι → Option (Prog S ε α)} {s : W × Γ} (hs : D.AllSafe Q threads s) (hi : D.inv s)
    {i : ι} {o : S.Op} {k : S.Resp o → Prog S ε α} (h : threads i = some (.call o k)) :
    D.pre i o s :=
  (hs i _ h s (D.refl _ _) hi).1

/-! ## Histories -/

/-- The same calls on a world that remembers them. -/
def Sem.logged (sem : Sem ι W S) : Sem ι (W × List (ι × Event S)) S where
  allows i w o r := sem.allows i w.1 o r
  next i w o r := (sem.next i w.1 o r, w.2 ++ [(i, ⟨o, r⟩)])
  exit i w := (sem.exit i w.1, w.2)
  env w w' := sem.env w.1 w'.1 ∧ w'.2 = w.2

/-- The world of a history: what a call can be answered depends on all answers so far, and
nothing else happens. -/
def Sem.history (allows : ι → List (ι × Event S) → (o : S.Op) → S.Resp o → Prop) :
    Sem ι (List (ι × Event S)) S where
  allows := allows
  next i log o r := log ++ [(i, ⟨o, r⟩)]
  exit _ log := log
  env log log' := log' = log

/-- The events of one thread. -/
def eventsOf [DecidableEq ι] (i : ι) (log : List (ι × Event S)) : List (Event S) :=
  (log.filter fun e => e.1 = i).map Prod.snd

theorem eventsOf_append [DecidableEq ι] (i : ι) (l₁ l₂ : List (ι × Event S)) :
    eventsOf i (l₁ ++ l₂) = eventsOf i l₁ ++ eventsOf i l₂ := by
  simp [eventsOf]

/-- `Leads p t q`: answered as in `t`, the program has `q` left to do. -/
inductive Leads : Prog S ε α → List (Event S) → Prog S ε α → Prop
  | refl (p : Prog S ε α) : Leads p [] p
  | call {o : S.Op} {k : S.Resp o → Prog S ε α} {r : S.Resp o} {t : List (Event S)}
      {q : Prog S ε α} : Leads (k r) t q → Leads (.call o k) (⟨o, r⟩ :: t) q

theorem Leads.snoc {p : Prog S ε α} {t : List (Event S)} {o : S.Op}
    {k : S.Resp o → Prog S ε α} (h : Leads p t (.call o k)) (r : S.Resp o) :
    Leads p (t ++ [⟨o, r⟩]) (k r) := by
  generalize hq : Prog.call o k = q at h
  induction h with
  | refl p => subst hq; exact .call (.refl _)
  | call _ ih => exact .call (ih hq)

theorem Leads.runs {p : Prog S ε α} {t : List (Event S)} {a : α} (h : Leads p t (.ret a)) :
    Runs p t (.ok a) := by
  generalize hq : Prog.ret a = q at h
  induction h with
  | refl p => subst hq; exact .ret a
  | call _ ih => exact .call _ (ih hq)

variable {allows : ι → List (ι × Event S) → (o : S.Op) → S.Resp o → Prop}

/-- The events of a thread lead from its program to what it has left to do. -/
theorem Sem.history_leads [DecidableEq ι] {c c' : Conf ι (List (ι × Event S)) S ε α}
    (h : (Sem.history allows).Reach c c') (h0 : c.world = []) {i : ι} {q : Prog S ε α}
    (hq : c'.threads i = some q) :
    ∃ p, c.threads i = some p ∧ Leads p (eventsOf i c'.world) q := by
  induction h generalizing q with
  | refl => exact ⟨q, hq, by rw [h0]; exact .refl q⟩
  | tail _ hstep ih =>
    cases hstep with
    | @act j o k r hp ha =>
      by_cases hji : i = j
      · subst hji
        dsimp only at hq
        rw [Function.update_self] at hq
        obtain ⟨p, hp', hl⟩ := ih hp
        obtain rfl := Option.some.inj hq
        refine ⟨p, hp', ?_⟩
        show Leads p (eventsOf i (_ ++ [(i, ⟨o, r⟩)])) (k r)
        rw [eventsOf_append]
        simpa [eventsOf] using hl.snoc r
      · dsimp only at hq
        rw [Function.update_of_ne hji] at hq
        obtain ⟨p, hp', hl⟩ := ih hq
        refine ⟨p, hp', ?_⟩
        show Leads p (eventsOf i (_ ++ [(j, ⟨o, r⟩)])) q
        rw [eventsOf_append]
        simpa [eventsOf, Ne.symm hji] using hl
    | @kill j =>
      by_cases hji : i = j
      · subst hji
        dsimp only at hq
        rw [Function.update_self] at hq
        exact absurd hq (by simp)
      · dsimp only at hq
        rw [Function.update_of_ne hji] at hq
        exact ih hq
    | @env w he =>
      obtain ⟨p, hp', hl⟩ := ih hq
      refine ⟨p, hp', ?_⟩
      rw [show w = _ from he]
      exact hl

/-- What every answer keeps is true of every history reached. -/
theorem Sem.history_inv [DecidableEq ι] {I : List (ι × Event S) → Prop}
    (hI : ∀ i log o r, allows i log o r → I (log ++ [(i, ⟨o, r⟩)]))
    {c c' : Conf ι (List (ι × Event S)) S ε α} (h : (Sem.history allows).Reach c c')
    (h0 : I c.world) : I c'.world := by
  induction h with
  | refl => exact h0
  | tail _ hstep ih =>
    cases hstep with
    | act r hp ha => exact hI _ _ _ _ ha
    | kill i => exact ih
    | env he => exact (show _ = _ from he) ▸ ih

/-- A trace whose answers are allowed one after the other is a run of its thread alone. -/
theorem Sem.history_run [DecidableEq ι] {i : ι} {p : Prog S ε α} {t : List (Event S)} {a : α}
    (h : Runs p t (.ok a)) {c : Conf ι (List (ι × Event S)) S ε α} (hp : c.threads i = some p)
    (ha : ∀ t₁ e t₂, t = t₁ ++ e :: t₂ → allows i (c.world ++ t₁.map (i, ·)) e.1 e.2) :
    ∃ c', (Sem.history allows).Reach c c' ∧ c'.world = c.world ++ t.map (i, ·)
      ∧ c'.threads i = some (.ret a) := by
  generalize hx : (Except.ok a : Outcome ε α) = x at h
  induction h generalizing c with
  | ret b =>
    obtain rfl := Except.ok.inj hx
    exact ⟨c, .refl, by simp, hp⟩
  | raise e => exact absurd hx (by simp)
  | @call o k r t x h ih =>
    have hfirst : allows i c.world o r := by
      have hall := ha [] ⟨o, r⟩ t rfl
      simpa using hall
    let c₁ : Conf ι (List (ι × Event S)) S ε α :=
      ⟨c.world ++ [(i, ⟨o, r⟩)], Function.update c.threads i (some (k r))⟩
    have hstep : (Sem.history allows).Step c c₁ := .act r hp hfirst
    have hrest : ∀ t₁ e t₂, t = t₁ ++ e :: t₂ → allows i (c₁.world ++ t₁.map (i, ·)) e.1 e.2 := by
      intro t₁ e t₂ ht
      have hall := ha (⟨o, r⟩ :: t₁) e t₂ (by rw [ht]; rfl)
      simpa [c₁] using hall
    obtain ⟨c', hreach, hworld, hend⟩ := ih (Function.update_self _ _ _) hrest hx
    exact ⟨c', .head hstep hreach, by rw [hworld]; simp [c₁], hend⟩

/-! ## One thread alone -/

/-- The program of one thread run to its end, with the answers of `oracle`. -/
def Sem.drive (sem : Sem ι W S) (i : ι) (oracle : W → (o : S.Op) → S.Resp o) :
    Prog S ε α → W → W × Prog S ε α
  | .ret a, w => (w, .ret a)
  | .raise e, w => (w, .raise e)
  | .call o k, w => Sem.drive sem i oracle (k (oracle w o)) (sem.next i w o (oracle w o))

/-- The configuration after thread `i` has run to its end. -/
def Sem.driven [DecidableEq ι] (sem : Sem ι W S) (i : ι) (oracle : W → (o : S.Op) → S.Resp o)
    (c : Conf ι W S ε α) : Conf ι W S ε α :=
  match c.threads i with
  | none => c
  | some p => ⟨(sem.drive i oracle p c.world).1,
    Function.update c.threads i (some (sem.drive i oracle p c.world).2)⟩

/-- Driving one thread by an oracle reaches what the thread then has; all other threads stay where
they were. -/
theorem Sem.drive_reach [DecidableEq ι] {i : ι} {oracle : W → (o : S.Op) → S.Resp o}
    (ha : ∀ w o, sem.allows i w o (oracle w o)) {p : Prog S ε α} {c : Conf ι W S ε α}
    (hp : c.threads i = some p) : sem.Reach c ⟨(sem.drive i oracle p c.world).1,
      Function.update c.threads i (some (sem.drive i oracle p c.world).2)⟩ := by
  induction p generalizing c with
  | ret a =>
    have hsame : Function.update c.threads i (some (.ret a)) = c.threads := by
      rw [← hp, Function.update_eq_self]
    show sem.Reach c ⟨c.world, Function.update c.threads i (some (.ret a))⟩
    rw [hsame]
  | raise e =>
    have hsame : Function.update c.threads i (some (.raise e)) = c.threads := by
      rw [← hp, Function.update_eq_self]
    show sem.Reach c ⟨c.world, Function.update c.threads i (some (.raise e))⟩
    rw [hsame]
  | call o k ih =>
    have hrest := ih (oracle c.world o) (c := ⟨sem.next i c.world o (oracle c.world o),
      Function.update c.threads i (some (k (oracle c.world o)))⟩) (Function.update_self ..)
    rw [Function.update_idem] at hrest
    exact .head (.act _ hp (ha _ _)) hrest

/-- A thread that is answered as the world allows can run to its end. -/
theorem Sem.driven_reach [DecidableEq ι] {i : ι} {oracle : W → (o : S.Op) → S.Resp o}
    (ha : ∀ w o, sem.allows i w o (oracle w o)) (c : Conf ι W S ε α) :
    sem.Reach c (sem.driven i oracle c) := by
  unfold Sem.driven
  split
  · exact .refl
  · next p hp => exact Sem.drive_reach ha hp

/-! ## Schedules -/

/-- One move of a schedule: a thread gets the answer the oracle gives, or is killed. -/
inductive Move (ι W : Type) (S : Sig)
  | act (i : ι) (answer : W → (o : S.Op) → S.Resp o)
  | kill (i : ι)

variable [DecidableEq ι] [∀ i w o r, Decidable (sem.allows i w o r)]

/-- Play one move; `none` when the thread has no call to make or the answer is impossible. -/
def Sem.move (sem : Sem ι W S) [∀ i w o r, Decidable (sem.allows i w o r)] :
    Move ι W S → Conf ι W S ε α → Option (Conf ι W S ε α)
  | .act i answer, c =>
    match c.threads i with
    | some (.call o k) =>
      let r := answer c.world o
      if sem.allows i c.world o r then
        some ⟨sem.next i c.world o r, Function.update c.threads i (some (k r))⟩
      else none
    | _ => none
  | .kill i, c => some ⟨sem.exit i c.world, Function.update c.threads i none⟩

/-- Play a schedule. -/
def Sem.play (sem : Sem ι W S) [∀ i w o r, Decidable (sem.allows i w o r)] :
    List (Move ι W S) → Conf ι W S ε α → Option (Conf ι W S ε α)
  | [], c => some c
  | m :: ms, c => (sem.move m c).bind (sem.play ms)

/-- A move of the explorer is a step. -/
theorem Sem.move_step {m : Move ι W S} {c c' : Conf ι W S ε α} (h : sem.move m c = some c') :
    sem.Step c c' := by
  cases m with
  | act i answer =>
    unfold Sem.move at h
    dsimp only at h
    split at h
    · next o k hp =>
      split at h
      · next ha =>
        obtain rfl := Option.some.inj h
        exact .act _ hp ha
      · exact absurd h (by simp)
    · exact absurd h (by simp)
  | kill i =>
    obtain rfl := Option.some.inj h
    exact .kill i

/-- A schedule that plays to the end is a run. -/
theorem Sem.play_reach {ms : List (Move ι W S)} {c c' : Conf ι W S ε α}
    (h : sem.play ms c = some c') : sem.Reach c c' := by
  induction ms generalizing c with
  | nil =>
    obtain rfl := Option.some.inj h
    exact .refl
  | cons m ms ih =>
    obtain ⟨c₁, h1, h2⟩ := Option.bind_eq_some_iff.mp h
    exact .head (Sem.move_step h1) (ih h2)

/-- Every state a schedule goes through after the first. -/
def Sem.states (sem : Sem ι W S) [∀ i w o r, Decidable (sem.allows i w o r)] :
    List (Move ι W S) → Conf ι W S ε α → Option (List (Conf ι W S ε α))
  | [], _ => some []
  | m :: ms, c => (sem.move m c).bind fun c' => (sem.states ms c').map (c' :: ·)

/-- The states of the explorer are a run. -/
theorem Sem.states_chain {ms : List (Move ι W S)} {c : Conf ι W S ε α}
    {run : List (Conf ι W S ε α)} (h : sem.states ms c = some run) :
    List.IsChain sem.Step (c :: run) := by
  induction ms generalizing c run with
  | nil =>
    obtain rfl := Option.some.inj h
    simp
  | cons m ms ih =>
    obtain ⟨c₁, h1, h2⟩ := Option.bind_eq_some_iff.mp h
    obtain ⟨rest, h3, rfl⟩ := Option.map_eq_some_iff.mp h2
    rw [List.isChain_cons_cons]
    exact ⟨Sem.move_step h1, ih h3⟩

end SddGov.Effect
