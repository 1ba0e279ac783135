import SddGov.Effect.Machine

/-!
# Programs in phases

Tools for long programs. `Sig.sum` puts two sets of calls side by side, so that a
program over one of them runs as a part of a program over both (`Prog.inl`,
`runs_inl`). A call that is made in one phase alone comes after the phases before it have
ended with a result (`runs_reached`), and `AtMost` counts such calls. Where acquiring
something weighs one and releasing it minus one, `Weighs` says what every run of a
program leaves acquired. A thread that is killed has made the beginning of a run
(`Sem.history_runs`, `Leads.extends`).
-/

namespace SddGov.Effect

variable {S T : Sig} {ι ε ε' α β : Type}

/-! ## Calls of two kinds -/

/-- The calls of `S` and those of `T`. -/
abbrev Sig.sum (S T : Sig) : Sig where
  Op := S.Op ⊕ T.Op
  Resp
    | .inl o => S.Resp o
    | .inr o => T.Resp o

/-- The program with its calls on the left. -/
def Prog.inl : Prog S ε α → Prog (S.sum T) ε α
  | .ret a => .ret a
  | .raise e => .raise e
  | .call o k => .call (.inl o) fun r => (k r).inl

/-- The calls on the left, with their answers. -/
def leftEvents : List (Event (S.sum T)) → List (Event S)
  | [] => []
  | ⟨.inl o, r⟩ :: t => ⟨o, r⟩ :: leftEvents t
  | ⟨.inr _, _⟩ :: t => leftEvents t

theorem leftEvents_append (t t' : List (Event (S.sum T))) :
    leftEvents (t ++ t') = leftEvents t ++ leftEvents t' := by
  induction t with
  | nil => rfl
  | cons e t ih =>
    obtain ⟨o | o, r⟩ := e
    · exact congrArg (⟨o, r⟩ :: ·) ih
    · exact ih

/-- A trace of the program on the left is a trace of the program. -/
theorem runs_inl {p : Prog S ε α} {t : List (Event (S.sum T))} {x : Outcome ε α}
    (h : Runs (p.inl : Prog (S.sum T) ε α) t x) : Runs p (leftEvents t) x := by
  induction p generalizing t with
  | ret a =>
    obtain ⟨rfl, rfl⟩ := runs_ret h
    exact .ret a
  | raise e =>
    obtain ⟨rfl, rfl⟩ := runs_raise h
    exact .raise e
  | call o k ih =>
    obtain ⟨r, t', rfl, hrest⟩ := runs_call h
    exact .call o (ih r hrest)

/-- A program on the left makes only calls on the left. -/
theorem calls_inl {P : (S.sum T).Op → Prop} (h : ∀ o, P (.inl o)) (p : Prog S ε α) :
    (p.inl : Prog (S.sum T) ε α).Calls P := by
  induction p with
  | ret a => trivial
  | raise e => trivial
  | call o k ih => exact ⟨h o, fun r => ih r⟩

/-- The calls on the left in a log. -/
def leftLog : List (ι × Event (S.sum T)) → List (ι × Event S)
  | [] => []
  | (i, ⟨.inl o, r⟩) :: log => (i, ⟨o, r⟩) :: leftLog log
  | (_, ⟨.inr _, _⟩) :: log => leftLog log

/-- Taking one thread's events and the left side of the signature commute. -/
theorem eventsOf_leftLog [DecidableEq ι] (i : ι) (log : List (ι × Event (S.sum T))) :
    eventsOf i (leftLog log) = leftEvents (eventsOf i log) := by
  induction log with
  | nil => rfl
  | cons entry log ih =>
    have hcons {U : Sig} (j : ι) (e : Event U) (rest : List (ι × Event U)) :
        eventsOf i ((j, e) :: rest) = if j = i then e :: eventsOf i rest else eventsOf i rest := by
      unfold eventsOf
      by_cases hji : j = i <;> simp [hji]
    obtain ⟨j, o | o, r⟩ := entry
    · show eventsOf i ((j, ⟨o, r⟩) :: leftLog log) = _
      rw [hcons, hcons, ih]
      split <;> rfl
    · show eventsOf i (leftLog log) = _
      rw [hcons, ih]
      split <;> rfl

/-! ## What a call comes after -/

/-- A call of a program in two parts is made in the first, or after it has ended. -/
theorem runs_split {p : Prog S ε α} {f : α → Prog S ε' β} {g : ε → Prog S ε' β}
    {before after : List (Event S)}
    {e : Event S} {x : Outcome ε' β} (h : Runs (p.handle f g) (before ++ e :: after) x) :
    (∃ rest y, Runs p (before ++ e :: rest) y)
      ∨ ∃ t₁ t₂ y, before = t₁ ++ t₂ ∧ Runs p t₁ y ∧ Runs (Prog.resume f g y)
        (t₂ ++ e :: after) x := by
  obtain ⟨t₁, t₂, y, ht, h₁, h₂⟩ := runs_handle h
  rcases List.append_eq_append_iff.mp ht with ⟨t₃, rfl, hrest⟩ | ⟨t₃, rfl, rfl⟩
  · cases t₃ with
    | nil =>
      exact .inr
        ⟨before, [], y, by simp, by simpa using h₁, by rw [List.nil_append, hrest]; exact h₂⟩
    | cons e' t₃ =>
      obtain ⟨rfl, -⟩ := List.cons.inj hrest
      exact .inl ⟨t₃, y, h₁⟩
  · exact .inr ⟨t₁, t₃, y, rfl, h₁, h₂⟩

/-- A call that neither the first program nor the handler makes comes after the first program,
which has ended with a result. -/
theorem runs_reached {P : S.Op → Prop} {p : Prog S ε α} {f : α → Prog S ε' β} {g : ε → Prog S ε' β}
    {before after : List (Event S)} {e : Event S} {x : Outcome ε' β}
    (h : Runs (p.handle f g) (before ++ e :: after) x) (hP : P e.1) (hp : p.Calls fun o => ¬ P o)
    (hg : ∀ y, (g y).Calls fun o => ¬ P o) :
    ∃ a t₁ t₂, before = t₁ ++ t₂ ∧ Runs p t₁ (.ok a) ∧ Runs (f a) (t₂ ++ e :: after) x := by
  rcases runs_split h with ⟨rest, y, h₁⟩ | ⟨t₁, t₂, y, rfl, h₁, h₂⟩
  · exact absurd hP (hp.runs h₁ e (by simp))
  · cases y with
    | ok a => exact ⟨a, t₁, t₂, rfl, h₁, h₂⟩
    | error e' => exact absurd hP ((hg e').runs h₂ e (by simp))

/-- A call that no continuation makes is one of the first program. -/
theorem runs_within {P : S.Op → Prop} {p : Prog S ε α} {f : α → Prog S ε' β} {g : ε → Prog S ε' β}
    {before after : List (Event S)} {e : Event S} {x : Outcome ε' β}
    (h : Runs (p.handle f g) (before ++ e :: after) x) (hP : P e.1)
    (hf : ∀ a, (f a).Calls fun o => ¬ P o)
    (hg : ∀ y, (g y).Calls fun o => ¬ P o) :
    ∃ rest y, Runs p (before ++ e :: rest) y := by
  rcases runs_split h with hfirst | ⟨t₁, t₂, y, rfl, -, h₂⟩
  · exact hfirst
  · cases y with
    | ok a => exact absurd hP ((hf a).runs h₂ e (by simp))
    | error e' => exact absurd hP ((hg e').runs h₂ e (by simp))

/-- What a thread has done so far is the beginning of a run of its program, killed or not, whatever
the calls after it would be answered. -/
theorem Sem.history_runs [DecidableEq ι] {allows : ι → List (ι × Event S) → (o : S.Op) →
    S.Resp o → Prop}
    {c c' : Conf ι (List (ι × Event S)) S ε α} (h : (Sem.history allows).Reach c c')
    (h0 : c.world = [])
    {i : ι} {p : Prog S ε α} (hp : c.threads i = some p) :
    ∃ q, Leads p (eventsOf i c'.world) q ∧ ∀ q', c'.threads i = some q' → q' = q := by
  induction h with
  | refl =>
    refine ⟨p, by rw [h0]; exact .refl p, ?_⟩
    intro q' hq'
    exact Option.some.inj (hq'.symm.trans hp)
  | tail _ hstep ih =>
    obtain ⟨q, hleads, hend⟩ := ih
    cases hstep with
    | @act j o k r hj ha =>
      by_cases hji : j = i
      · subst hji
        obtain rfl := hend _ hj
        refine ⟨k r, ?_, ?_⟩
        · show Leads p (eventsOf j (_ ++ [(j, ⟨o, r⟩)])) (k r)
          rw [eventsOf_append]
          simpa [eventsOf] using hleads.snoc r
        · intro q' hq'
          dsimp only at hq'
          rw [Function.update_self] at hq'
          exact (Option.some.inj hq').symm
      · refine ⟨q, ?_, ?_⟩
        · show Leads p (eventsOf i (_ ++ [(j, ⟨o, r⟩)])) q
          rw [eventsOf_append]
          simpa [eventsOf, hji] using hleads
        · intro q' hq'
          dsimp only at hq'
          rw [Function.update_of_ne (Ne.symm hji)] at hq'
          exact hend q' hq'
    | @kill j =>
      refine ⟨q, hleads, ?_⟩
      intro q' hq'
      dsimp only at hq'
      by_cases hji : i = j
      · subst hji
        rw [Function.update_self] at hq'
        exact absurd hq' (by simp)
      · rw [Function.update_of_ne hji] at hq'
        exact hend q' hq'
    | @env w he =>
      refine ⟨q, ?_, hend⟩
      rw [show w = _ from he]
      exact hleads

/-- The beginning of a run is that of a whole one. -/
theorem Leads.extends {p q : Prog S ε α} {t t' : List (Event S)} {x : Outcome ε α} (h : Leads p t q)
    (hq : Runs q t' x) : Runs p (t ++ t') x := by
  induction h with
  | refl p => exact hq
  | call _ ih => exact .call _ (ih hq)

/-- What holds of every run is ensured. -/
theorem ensures_of_runs {Q : List (Event S) → Outcome ε α → Prop} {p : Prog S ε α}
    {t : List (Event S)}
    (h : ∀ t' x, Runs p t' x → Q (t ++ t') x) : Ensures Q t p := by
  induction p generalizing t with
  | ret a =>
    have hend := h [] _ (.ret a)
    rw [List.append_nil] at hend
    exact hend
  | raise e =>
    have hend := h [] _ (.raise e)
    rw [List.append_nil] at hend
    exact hend
  | call o k ih =>
    intro r
    refine ih r fun t' x hr => ?_
    simpa using h (⟨o, r⟩ :: t') x (.call o hr)

/-- What holds of every configuration that is reached. -/
def Sem.Always {W : Type} [DecidableEq ι] (sem : Sem ι W S) (c : Conf ι W S ε α)
    (P : Conf ι W S ε α → Prop) : Prop :=
  ∀ c', sem.Reach c c' → P c'

/-! ## Calls that are counted -/

/-- No run of the program makes more than `n` such calls. -/
def AtMost (P : Event S → Bool) (n : Nat) (p : Prog S ε α) :
    Prop := ∀ t x, Runs p t x → t.countP P ≤ n

namespace AtMost

variable {P : Event S → Bool} {n m : Nat} {p : Prog S ε α}

theorem of_calls (h : p.Calls fun o => ∀ r, P ⟨o, r⟩ = false) : AtMost P 0 p := by
  intro t x hr
  rw [Nat.le_zero, List.countP_eq_zero]
  intro e he hP
  rw [h.runs hr e he e.2] at hP
  exact absurd hP (by simp)

theorem perform {o : S.Op} : AtMost P 1 (Prog.perform o : Prog S ε (S.Resp o)) := by
  intro t x hr
  obtain ⟨r, t', rfl, hrest⟩ := runs_call hr
  obtain ⟨rfl, -⟩ := runs_ret hrest
  exact List.countP_le_length

/-- The weights of a program and of what handles its outcome add up. -/
theorem handle {f : α → Prog S ε' β} {g : ε → Prog S ε' β} (hp : AtMost P n p)
    (hf : ∀ a, AtMost P m (f a))
    (hg : ∀ e, AtMost P m (g e)) : AtMost P (n + m) (p.handle f g) := by
  intro t x hr
  obtain ⟨t₁, t₂, y, rfl, h₁, h₂⟩ := runs_handle hr
  rw [List.countP_append]
  refine Nat.add_le_add (hp t₁ y h₁) ?_
  cases y with
  | ok a => exact hf a t₂ x h₂
  | error e => exact hg e t₂ x h₂

theorem raise (e : ε) : AtMost P n (.raise e : Prog S ε α) := by
  intro t x hr
  obtain ⟨rfl, -⟩ := runs_raise hr
  exact Nat.zero_le n

/-- After a program that makes no such call. -/
theorem after {f : α → Prog S ε β} (hp : p.Calls fun o => ∀ r, P ⟨o, r⟩ = false)
    (hf : ∀ a, AtMost P n (f a)) :
    AtMost P n (p.handle f .raise) := by
  rw [← Nat.zero_add n]
  exact (of_calls hp).handle hf fun e => raise e

/-- Before programs that make no such call. -/
theorem before {f : α → Prog S ε' β} {g : ε → Prog S ε' β} (hp : AtMost P n p)
    (hf : ∀ a, (f a).Calls fun o => ∀ r, P ⟨o, r⟩ = false)
    (hg : ∀ e, (g e).Calls fun o => ∀ r, P ⟨o, r⟩ = false) :
    AtMost P n (p.handle f g) :=
  hp.handle (fun a => of_calls (hf a)) fun e => of_calls (hg e)

theorem mono (h : AtMost P n p) (hn : n ≤ m) :
    AtMost P m p := fun t x hr => Nat.le_trans (h t x hr) hn

end AtMost

/-! ## Balances -/

/-- What the calls of a trace weigh together. -/
def total (w : Event S → Int) : List (Event S) → Int
  | [] => 0
  | e :: t => w e + total w t

@[simp] theorem total_nil (w : Event S → Int) : total w [] = 0 := rfl

theorem total_cons (w : Event S → Int) (e : Event S) (t : List (Event S)) :
    total w (e :: t) = w e + total w t := rfl

theorem total_append (w : Event S → Int) (t t' : List (Event S)) :
    total w (t ++ t') = total w t + total w t' := by
  induction t with
  | nil => simp
  | cons e t ih =>
    rw [List.cons_append, total_cons, total_cons, ih]
    omega

theorem total_sub (v w : Event S → Int) (t : List (Event S)) :
    total (fun e => v e - w e) t = total v t - total w t := by
  induction t with
  | nil => rfl
  | cons e t ih =>
    rw [total_cons, total_cons, total_cons, ih]
    omega

/-- Every run of the program weighs what its end says. -/
def Weighs (w : Event S → Int) (b : Outcome ε α → Int) (p : Prog S ε α) : Prop :=
  ∀ t x, Runs p t x → total w t = b x

namespace Weighs

variable {w : Event S → Int} {b : Outcome ε α → Int} {p : Prog S ε α}

theorem ret {a : α} (h : b (.ok a) = 0) : Weighs w b (.ret a) := by
  intro t x hr
  obtain ⟨rfl, rfl⟩ := runs_ret hr
  exact h.symm

theorem raise {e : ε} (h : b (.error e) = 0) : Weighs w b (.raise e) := by
  intro t x hr
  obtain ⟨rfl, rfl⟩ := runs_raise hr
  exact h.symm

theorem handle {c : Outcome ε' β → Int} {q : Prog S ε' β} {f : β → Prog S ε α} {g : ε' → Prog S ε α}
    (hq : Weighs w c q) (hf : ∀ a, Weighs w (fun x => b x - c (.ok a)) (f a))
    (hg : ∀ e, Weighs w (fun x => b x - c (.error e)) (g e)) : Weighs w b (q.handle f g) := by
  intro t x hr
  obtain ⟨t₁, t₂, y, rfl, h₁, h₂⟩ := runs_handle hr
  have hfirst := hq t₁ y h₁
  rw [total_append]
  cases y with
  | ok a =>
    have hlater : total w t₂ = b x - c (.ok a) := hf a t₂ x h₂
    omega
  | error e =>
    have hlater : total w t₂ = b x - c (.error e) := hg e t₂ x h₂
    omega

/-- One call, by its answer. -/
theorem call {o : S.Op} {k : S.Resp o → Prog S ε α}
    (h : ∀ r, Weighs w (fun x => b x - w ⟨o, r⟩) (k r)) :
    Weighs w b (.call o k) := by
  intro t x hr
  obtain ⟨r, t', rfl, hrest⟩ := runs_call hr
  have hlater : total w t' = b x - w ⟨o, r⟩ := h r t' x hrest
  rw [total_cons]
  omega

/-- Calls that weigh nothing. -/
theorem of_calls (h : p.Calls fun o => ∀ r, w ⟨o, r⟩ = 0) : Weighs w (fun _ => 0) p := by
  intro t x hr
  have hzero := h.runs hr
  clear hr
  induction t with
  | nil => rfl
  | cons e t ih =>
    have hfirst : w e = 0 := hzero e (List.mem_cons_self ..) e.2
    have hlater := ih fun e' he => hzero e' (List.mem_cons_of_mem _ he)
    rw [total_cons, hfirst, hlater]
    rfl

/-- After a program that leaves things as they were. -/
theorem after {q : Prog S ε β} {f : β → Prog S ε α} (hq : Weighs w (fun _ => 0) q)
    (hf : ∀ a, Weighs w b (f a))
    (hb : ∀ e, b (.error e) = 0) : Weighs w b (q.handle f .raise) := by
  intro t x hr
  obtain ⟨t₁, t₂, y, rfl, h₁, h₂⟩ := runs_handle hr
  have hfirst := hq t₁ y h₁
  rw [total_append, hfirst, Int.zero_add]
  cases y with
  | ok a => exact hf a t₂ x h₂
  | error e =>
    obtain ⟨rfl, rfl⟩ := runs_raise h₂
    exact (hb e).symm

theorem congr {c : Outcome ε α → Int} (h : Weighs w c p) (hb : ∀ x, c x = b x) :
    Weighs w b p := fun t x hr =>
  (h t x hr).trans (hb x)

end Weighs

/-- By how a program ends. -/
def byEnd (good bad : Int) : Outcome ε α → Int
  | .ok _ => good
  | .error _ => bad

/-- Every run of the program leaves things as they were. -/
abbrev Balanced (w : Event S → Int) (p : Prog S ε α) : Prop := Weighs w (fun _ => 0) p

namespace Balanced

variable {w : Event S → Int} {n : Int}

theorem handle {p : Prog S ε α} {f : α → Prog S ε' β} {g : ε → Prog S ε' β} (hp : Balanced w p)
    (hf : ∀ a, Balanced w (f a)) (hg : ∀ e, Balanced w (g e)) : Balanced w (p.handle f g) :=
  Weighs.handle hp (fun a => (hf a).congr fun _ => rfl) fun e => (hg e).congr fun _ => rfl

theorem bind {p : Prog S ε α} {f : α → Prog S ε β} (hp : Balanced w p)
    (hf : ∀ a, Balanced w (f a)) :
    Balanced w (p.handle f .raise) :=
  hp.handle hf fun _ => .raise rfl

theorem ite {c : Prop} [Decidable c] {p q : Prog S ε α} (hp : Balanced w p) (hq : Balanced w q) :
    Balanced w (if c then p else q) := by
  split
  · exact hp
  · exact hq

/-- Acquire, and release at the end whatever happens between. -/
theorem bracket {acquire : Prog S ε α} {body : Prog S ε β} {release : Prog S ε Unit}
    (ha : Weighs w (byEnd n 0) acquire) (hb : Balanced w body)
    (hr : Weighs w (fun _ => -n) release) :
    Balanced w (acquire.handle (fun _ => body.tryFinally release) .raise) := by
  have hrelease {γ : Type} (q : Prog S ε γ) (hq : Balanced w q) :
      Weighs w (fun _ => -n) (release.handle (fun _ => q) .raise) :=
    Weighs.handle hr (fun _ => hq.congr fun _ => (Int.sub_self (-n)).symm) fun _ =>
      .raise (Int.sub_self (-n))
  refine Weighs.handle ha (fun _ => ?_) fun _ => .raise rfl
  refine Weighs.handle hb (fun a => ?_) fun e => ?_
  · exact (hrelease _ (.ret rfl)).congr fun _ => by simp [byEnd]
  · exact (hrelease _ (.raise rfl)).congr fun _ => by simp [byEnd]

end Balanced

end SddGov.Effect
