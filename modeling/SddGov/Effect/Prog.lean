import Mathlib.Tactic.Common

/-!
# Programs that call out

A `Prog` is a finite tree: it returns, raises, or makes one call and goes on
with the answer. What a call does is not part of the tree, so one program can
be run against any environment: against arbitrary answers (`Runs`, the traces
below), one call after another on a world (`Exec`, in `Serial`), or together
with other programs on a shared world (`Machine`).

`handle` runs a program and continues on either end; `bind`, `tryCatch` and
`tryFinally` are its three uses, so every rule is proved for it and read off
for them.
-/

namespace SddGov.Effect

/-- The calls a program can make and the type of each answer. -/
structure Sig where
  Op : Type
  Resp : Op → Type

/-- A call with its answer. -/
abbrev Event (S : Sig) := (o : S.Op) × S.Resp o

/-- A program over the calls of `S`, raising `ε`, returning `α`. -/
inductive Prog (S : Sig) (ε α : Type)
  | ret (a : α)
  | raise (e : ε)
  | call (o : S.Op) (k : S.Resp o → Prog S ε α)

variable {S : Sig} {ε ε' α β : Type}

namespace Prog

/-- Run `p` and go on with `f` on a result, with `g` on an exception. -/
def handle (p : Prog S ε α) (f : α → Prog S ε' β) (g : ε → Prog S ε' β) : Prog S ε' β :=
  match p with
  | ret a => f a
  | raise e => g e
  | call o k => call o fun r => (k r).handle f g

/-- `p; f`. -/
def bind (p : Prog S ε α) (f : α → Prog S ε β) : Prog S ε β := p.handle f raise

/-- `try: p except e: h e`. -/
def tryCatch (p : Prog S ε α) (h : ε → Prog S ε' α) : Prog S ε' α := p.handle ret h

/-- `try: p finally: fin`; an exception of `fin` replaces what `p` ended with. -/
def tryFinally (p : Prog S ε α) (fin : Prog S ε Unit) : Prog S ε α :=
  p.handle (fun a => fin.handle (fun _ => ret a) raise)
    (fun e => fin.handle (fun _ => raise e) raise)

/-- One call. -/
def perform (o : S.Op) : Prog S ε (S.Resp o) := call o ret

/-- A pure computation that may raise. -/
def ofExcept : Except ε α → Prog S ε α
  | .ok a => ret a
  | .error e => raise e

instance : Monad (Prog S ε) where
  pure := ret
  bind := bind

@[simp] theorem pure_eq (a : α) : (Pure.pure a : Prog S ε α) = ret a := rfl

@[simp] theorem bind_eq (p : Prog S ε α) (f : α → Prog S ε β) : (p >>= f) = p.handle f raise := rfl

@[simp] theorem handle_ret (a : α) (f : α → Prog S ε' β) (g : ε → Prog S ε' β) :
    (ret a : Prog S ε α).handle f g = f a := rfl

@[simp] theorem handle_raise (e : ε) (f : α → Prog S ε' β) (g : ε → Prog S ε' β) :
    (raise e : Prog S ε α).handle f g = g e := rfl

@[simp] theorem handle_call (o : S.Op) (k : S.Resp o → Prog S ε α) (f : α → Prog S ε' β)
    (g : ε → Prog S ε' β) : (call o k).handle f g = call o fun r => (k r).handle f g := rfl

end Prog

/-! ## The calls of a program -/

/-- Every call `p` can make satisfies `P`. -/
def Prog.Calls (P : S.Op → Prop) : Prog S ε α → Prop
  | .ret _ => True
  | .raise _ => True
  | .call o k => P o ∧ ∀ r, Prog.Calls P (k r)

namespace Prog.Calls

variable {P : S.Op → Prop}

theorem perform {o : S.Op} (h : P o) : Calls P (Prog.perform o : Prog S ε (S.Resp o)) :=
  ⟨h, fun _ => trivial⟩

theorem mono {P' : S.Op → Prop} {p : Prog S ε α} (hp : Calls P p) (h : ∀ o, P o → P' o) :
    Calls P' p := by
  induction p with
  | ret a => trivial
  | raise e => trivial
  | call o k ih => exact ⟨h o hp.1, fun r => ih r (hp.2 r)⟩

theorem handle {p : Prog S ε α} {f : α → Prog S ε' β} {g : ε → Prog S ε' β} (hp : Calls P p)
    (hf : ∀ a, Calls P (f a)) (hg : ∀ e, Calls P (g e)) : Calls P (p.handle f g) := by
  induction p with
  | ret a => exact hf a
  | raise e => exact hg e
  | call o k ih => exact ⟨hp.1, fun r => ih r (hp.2 r)⟩

theorem bind {p : Prog S ε α} {f : α → Prog S ε β} (hp : Calls P p) (hf : ∀ a, Calls P (f a)) :
    Calls P (p.handle f .raise) :=
  hp.handle hf fun _ => trivial

theorem tryFinally {p : Prog S ε α} {fin : Prog S ε Unit} (hp : Calls P p) (hf : Calls P fin) :
    Calls P (p.tryFinally fin) :=
  hp.handle (fun _ => hf.bind fun _ => trivial) fun _ => hf.bind fun _ => trivial

theorem ofExcept (x : Except ε α) : Calls P (Prog.ofExcept x : Prog S ε α) := by
  cases x <;> trivial

theorem ite {c : Prop} [Decidable c] {p q : Prog S ε α} (hp : Calls P p) (hq : Calls P q) :
    Calls P (if c then p else q) := by
  split
  · exact hp
  · exact hq

end Prog.Calls

/-! ## Traces -/

/-- What a finished program ends with. -/
abbrev Outcome (ε α : Type) := Except ε α

/-- `Runs p t x`: answered as in `t`, the program ends with `x`. -/
inductive Runs : Prog S ε α → List (Event S) → Outcome ε α → Prop
  | ret (a : α) : Runs (.ret a) [] (.ok a)
  | raise (e : ε) : Runs (.raise e) [] (.error e)
  | call (o : S.Op) {k : S.Resp o → Prog S ε α} {r : S.Resp o} {t : List (Event S)}
      {x : Outcome ε α} : Runs (k r) t x → Runs (.call o k) (⟨o, r⟩ :: t) x

theorem runs_call {o : S.Op} {k : S.Resp o → Prog S ε α} {t : List (Event S)} {x : Outcome ε α}
    (h : Runs (.call o k) t x) : ∃ r t', t = ⟨o, r⟩ :: t' ∧ Runs (k r) t' x := by
  cases h with
  | call _ h' => exact ⟨_, _, rfl, h'⟩

theorem runs_ret {a : α} {t : List (Event S)} {x : Outcome ε α}
    (h : Runs (.ret a : Prog S ε α) t x) : t = [] ∧ x = .ok a := by
  cases h
  exact ⟨rfl, rfl⟩

theorem runs_raise {e : ε} {t : List (Event S)} {x : Outcome ε α}
    (h : Runs (.raise e : Prog S ε α) t x) : t = [] ∧ x = .error e := by
  cases h
  exact ⟨rfl, rfl⟩

theorem runs_ofExcept {y : Except ε α} {t : List (Event S)} {x : Outcome ε α}
    (h : Runs (Prog.ofExcept y) t x) : t = [] ∧ x = y := by
  cases y with
  | ok a => exact runs_ret h
  | error e => exact runs_raise h

/-- What holds of every call of a program holds of every call in a trace. -/
theorem Prog.Calls.runs {P : S.Op → Prop} {p : Prog S ε α} (hp : p.Calls P) {t : List (Event S)}
    {x : Outcome ε α} (h : Runs p t x) : ∀ e ∈ t, P e.1 := by
  induction h with
  | ret a => simp
  | raise e => simp
  | call o _ ih =>
    intro e he
    rcases List.mem_cons.mp he with rfl | he
    · exact hp.1
    · exact ih (hp.2 _) e he

/-- The trace and the end of a program whose calls are answered by `oracle`. -/
def Prog.answered (oracle : (o : S.Op) → S.Resp o) :
    Prog S ε α → List (Event S) × Outcome ε α
  | .ret a => ([], .ok a)
  | .raise e => ([], .error e)
  | .call o k =>
    (⟨o, oracle o⟩ :: ((k (oracle o)).answered oracle).1, ((k (oracle o)).answered oracle).2)

theorem runs_answered (oracle : (o : S.Op) → S.Resp o) (p : Prog S ε α) :
    Runs p (p.answered oracle).1 (p.answered oracle).2 := by
  induction p with
  | ret a => exact .ret a
  | raise e => exact .raise e
  | call o k ih => exact .call o (ih _)

theorem mem_answered {oracle : (o : S.Op) → S.Resp o} {p : Prog S ε α} {e : Event S}
    (h : e ∈ (p.answered oracle).1) : e.2 = oracle e.1 := by
  induction p with
  | ret a => exact absurd h (by simp [Prog.answered])
  | raise e => exact absurd h (by simp [Prog.answered])
  | call o k ih =>
    rcases List.mem_cons.mp h with rfl | h
    · rfl
    · exact ih _ h

/-- The trace and the end of a program whose calls are answered by `oracle` from the calls
before them. Every run is one of some oracle, and an oracle makes a run of every program. -/
def Prog.replied (oracle : List (Event S) → (o : S.Op) → S.Resp o) :
    List (Event S) → Prog S ε α → List (Event S) × Outcome ε α
  | _, .ret a => ([], .ok a)
  | _, .raise e => ([], .error e)
  | past, .call o k =>
    let event : Event S := ⟨o, oracle past o⟩
    let later := (k (oracle past o)).replied oracle (past ++ [event])
    (event :: later.1, later.2)

theorem runs_replied (oracle : List (Event S) → (o : S.Op) → S.Resp o) (past : List (Event S))
    (p : Prog S ε α) : Runs p (p.replied oracle past).1 (p.replied oracle past).2 := by
  induction p generalizing past with
  | ret a => exact .ret a
  | raise e => exact .raise e
  | call o k ih => exact .call o (ih _ _)

/-- Every event of such a run is a call the oracle answered. -/
theorem mem_replied {oracle : List (Event S) → (o : S.Op) → S.Resp o} {p : Prog S ε α}
    {past : List (Event S)} {e : Event S} (h : e ∈ (p.replied oracle past).1) :
    ∃ earlier, e.2 = oracle earlier e.1 := by
  induction p generalizing past with
  | ret a => exact absurd h (by simp [Prog.replied])
  | raise e => exact absurd h (by simp [Prog.replied])
  | call o k ih =>
    rcases List.mem_cons.mp h with rfl | h
    · exact ⟨past, rfl⟩
    · exact ih _ h

/-- Where `handle` goes on from an outcome. -/
def Prog.resume (f : α → Prog S ε' β) (g : ε → Prog S ε' β) : Outcome ε α → Prog S ε' β
  | .ok a => f a
  | .error e => g e

/-- A trace of `handle` is a trace of the first program and one of its continuation. -/
theorem runs_handle {p : Prog S ε α} {f : α → Prog S ε' β} {g : ε → Prog S ε' β}
    {t : List (Event S)} {x : Outcome ε' β} (h : Runs (p.handle f g) t x) :
    ∃ t₁ t₂ y, t = t₁ ++ t₂ ∧ Runs p t₁ y ∧ Runs (Prog.resume f g y) t₂ x := by
  induction p generalizing t with
  | ret a => exact ⟨[], t, .ok a, rfl, .ret a, h⟩
  | raise e => exact ⟨[], t, .error e, rfl, .raise e, h⟩
  | call o k ih =>
    cases h with
    | call _ h' =>
      obtain ⟨t₁, t₂, y, rfl, h₁, h₂⟩ := ih _ h'
      exact ⟨_ :: t₁, t₂, y, rfl, .call o h₁, h₂⟩

/-- A trace of `p; f` that ends with a result. -/
theorem runs_bind {p : Prog S ε α} {f : α → Prog S ε β} {t : List (Event S)} {b : β}
    (h : Runs (p.handle f .raise) t (.ok b)) :
    ∃ t₁ t₂ a, t = t₁ ++ t₂ ∧ Runs p t₁ (.ok a) ∧ Runs (f a) t₂ (.ok b) := by
  obtain ⟨t₁, t₂, y, rfl, h₁, h₂⟩ := runs_handle h
  cases y with
  | error e => exact absurd (runs_raise h₂).2 (by simp)
  | ok a => exact ⟨t₁, t₂, a, rfl, h₁, h₂⟩

/-- A trace of `try: p finally: fin` that ends with a result. -/
theorem runs_tryFinally {p : Prog S ε α} {fin : Prog S ε Unit} {t : List (Event S)} {a : α}
    (h : Runs (p.tryFinally fin) t (.ok a)) :
    ∃ t₁ t₂, t = t₁ ++ t₂ ∧ Runs p t₁ (.ok a) ∧ Runs fin t₂ (.ok ()) := by
  obtain ⟨t₁, t₂, y, rfl, h₁, h₂⟩ := runs_handle h
  cases y with
  | error e =>
    -- after an exception the end is one as well
    obtain ⟨_, _, _, -, -, h₃⟩ := runs_bind h₂
    exact absurd (runs_raise h₃).2 (by simp)
  | ok b =>
    obtain ⟨t₃, t₄, u, rfl, h₃, h₄⟩ := runs_bind h₂
    obtain ⟨rfl, hb⟩ := runs_ret h₄
    obtain rfl := Except.ok.inj hb
    exact ⟨t₁, t₃, by simp, h₁, h₃⟩

/-- `Ensures Q t p`: after the trace `t`, whatever the answers, `p` ends with `Q`. -/
def Ensures (Q : List (Event S) → Outcome ε α → Prop) (t : List (Event S)) :
    Prog S ε α → Prop
  | .ret a => Q t (.ok a)
  | .raise e => Q t (.error e)
  | .call o k => ∀ r : S.Resp o, Ensures Q (t ++ [⟨o, r⟩]) (k r)

end SddGov.Effect
