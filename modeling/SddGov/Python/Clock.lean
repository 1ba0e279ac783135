import SddGov.Python.Exn

/-!
# Programs on a clock

Where others change what a program reads, every call finds the world of its own moment.
The clock is a number that each call moves on and that no program runs back, so what holds from
one moment to a later one holds for all calls between them. The rules say when a
sequence, a handler or a loop ends with a result, and at which moments its parts ran.
-/

namespace SddGov.Python.Clock

/-! ## Programs -/

/-- A program that starts at a moment and ends, or raises, at a later one. -/
structure Timed (α : Type) where
  run : Nat → Except Exn α × Nat
  forward : ∀ t, t ≤ (run t).2

variable {α β : Type}

def Timed.bindRun (p : Timed α) (f : α → Timed β) (t : Nat) : Except Exn β × Nat :=
  match p.run t with
  | (.error e, s) => (.error e, s)
  | (.ok a, s) => (f a).run s

theorem le_bindRun (p : Timed α) (f : α → Timed β) (t : Nat) : t ≤ (p.bindRun f t).2 := by
  unfold Timed.bindRun
  have hle := p.forward t
  generalize p.run t = r at hle ⊢
  obtain ⟨_ | a, s⟩ := r
  · exact hle
  · exact Nat.le_trans hle ((f a).forward s)

instance : Monad Timed where
  pure a := ⟨fun t => (.ok a, t), Nat.le_refl⟩
  bind p f := ⟨p.bindRun f, le_bindRun p f⟩

theorem Timed.le {p : Timed α} {t u : Nat} {r : Except Exn α} (h : p.run t = (r, u)) : t ≤ u := by
  have hle := p.forward t
  rw [h] at hle
  exact hle

/-- A timed program in two parts ends when the second part does. -/
theorem timed_bind_ok {p : Timed α} {f : α → Timed β} {t u : Nat} {b : β} :
    (p >>= f).run t = (.ok b, u) ↔ ∃ a s, p.run t = (.ok a, s) ∧ (f a).run s = (.ok b, u) := by
  show p.bindRun f t = (.ok b, u) ↔ _
  unfold Timed.bindRun
  rcases p.run t with ⟨_ | a, s⟩
  · simp
  · constructor
    · intro h
      exact ⟨a, s, rfl, h⟩
    · rintro ⟨a', s', heq, h⟩
      simp only [Prod.mk.injEq, Except.ok.injEq] at heq
      obtain ⟨rfl, rfl⟩ := heq
      exact h

theorem timed_pure_ok {a b : α} {t u : Nat} :
    (pure a : Timed α).run t = (.ok b, u) ↔ a = b ∧ t = u := by
  show (Except.ok a, t) = (Except.ok b, u) ↔ _
  simp

/-- A call that may fail. -/
def call (read : Nat → Except Exn α) : Timed α := ⟨fun t => (read t, t + 1), Nat.le_succ⟩

/-- What is found at this moment. -/
def sample (read : Nat → α) : Timed α := call fun t => .ok (read t)

/-- A computation that takes no call. -/
def ofExcept (x : Except Exn α) : Timed α := ⟨fun t => (x, t), Nat.le_refl⟩

def raise (e : Exn) : Timed α := ofExcept (.error e)

/-- `except`, where `f` says what is raised in place of an error. -/
def rethrow (f : Exn → Exn) (p : Timed α) : Timed α :=
  ⟨fun t => ((p.run t).1.mapError f, (p.run t).2), p.forward⟩

/-- `try: p finally: q` -/
def ensuring (p : Timed α) (q : Timed Unit) : Timed α :=
  ⟨fun t =>
    ((q.run (p.run t).2).1.bind fun _ => (p.run t).1, (q.run (p.run t).2).2),
    fun t => Nat.le_trans (p.forward t) (q.forward _)⟩

theorem call_ok {read : Nat → Except Exn α} {t u : Nat} {a : α} :
    (call read).run t = (.ok a, u) ↔ read t = .ok a ∧ t + 1 = u := by
  simp [call]

theorem sample_ok {read : Nat → α} {t u : Nat} {a : α} :
    (sample read).run t = (.ok a, u) ↔ read t = a ∧ t + 1 = u := by
  simp [sample, call]

theorem ofExcept_ok {x : Except Exn α} {t u : Nat} {a : α} :
    (ofExcept x).run t = (.ok a, u) ↔ x = .ok a ∧ t = u := by
  simp [ofExcept]

theorem raise_ok {e : Exn} {t u : Nat} {a : α} : ¬ (raise e).run t = (.ok a, u) := by
  simp [raise, ofExcept]

theorem rethrow_ok {f : Exn → Exn} {p : Timed α} {t u : Nat} {a : α} :
    (rethrow f p).run t = (.ok a, u) ↔ p.run t = (.ok a, u) := by
  unfold rethrow
  dsimp only
  rcases p.run t with ⟨_ | b, s⟩ <;> simp [Except.mapError]

/-- A `finally` that ends with a result has run after the body, which did too. -/
theorem ensuring_ok {p : Timed α} {q : Timed Unit} {t u : Nat} {a : α}
    (h : (ensuring p q).run t = (.ok a, u)) :
    ∃ s, p.run t = (.ok a, s) ∧ q.run s = (.ok (), u) := by
  unfold ensuring at h
  dsimp only at h
  rcases hp : p.run t with ⟨x, s⟩
  rw [hp] at h
  dsimp only at h
  rcases hq : q.run s with ⟨_ | b, v⟩
  · rw [hq] at h
    simp [Except.bind] at h
  · rw [hq] at h
    obtain ⟨rfl, rfl⟩ := Prod.mk.inj h
    exact ⟨s, rfl, hq⟩

/-! ## Steps -/

/-- `if not c: raise ValueError(message)` -/
def check (c : Bool) (message : PyStr) : Timed Unit := if c then pure () else raise (.value message)

theorem check_ok {c : Bool} {message : PyStr} {t u : Nat} {a : Unit} :
    (check c message).run t = (.ok a, u) ↔ c = true ∧ t = u := by
  unfold check
  cases c
  · simpa using raise_ok
  · simp [timed_pure_ok]

/-- The value that must be there. -/
def expect (x : Option α) (message : PyStr) :
    Timed α := ofExcept (x.elim (.error (.value message)) .ok)

theorem expect_ok {x : Option α} {message : PyStr} {t u : Nat} {a : α} :
    (expect x message).run t = (.ok a, u) ↔ x = some a ∧ t = u := by
  unfold expect
  cases x <;> simp [ofExcept_ok]

/-- A loop that collects. -/
def each (f : α → Timed β) : List α → Timed (List β)
  | [] => pure []
  | a :: rest => do
    let b ← f a
    let bs ← each f rest
    pure (b :: bs)

/-- Every round of a loop has run between its start and its end. -/
theorem each_ok {f : α → Timed β} : ∀ {as : List α} {t u : Nat} {bs : List β},
    (each f as).run t = (.ok bs, u) →
      List.Forall₂ (fun a b => ∃ s v, t ≤ s ∧ v ≤ u ∧ (f a).run s = (.ok b, v)) as bs
  | [], _, _, _, h => by
    obtain ⟨rfl, rfl⟩ := timed_pure_ok.mp h
    exact .nil
  | a :: rest, t, u, bs, h => by
    obtain ⟨b, s, hb, h⟩ := timed_bind_ok.mp h
    obtain ⟨bs, s', hbs, h⟩ := timed_bind_ok.mp h
    obtain ⟨rfl, rfl⟩ := timed_pure_ok.mp h
    have hfirst := Timed.le hb
    have hrest := Timed.le hbs
    refine .cons ⟨t, s, Nat.le_refl t, hrest, hb⟩ ((each_ok hbs).imp ?_)
    rintro a b ⟨v, w, hv, hw, hrun⟩
    exact ⟨v, w, Nat.le_trans hfirst hv, hw, hrun⟩

/-- Every result of the loop was made in a round of its own. -/
theorem each_round {f : α → Timed β} {as : List α} {t u : Nat} {bs : List β}
    (h : (each f as).run t = (.ok bs, u)) : ∀ b ∈ bs, ∃ a s v, v ≤ u
    ∧ (f a).run s = (.ok b, v) := by
  have hall := each_ok h
  clear h
  induction hall with
  | nil => simp
  | cons hab _ ih =>
    intro b hb
    rcases List.mem_cons.mp hb with rfl | hb
    · obtain ⟨s, v, -, hv, hrun⟩ := hab
      exact ⟨_, s, v, hv, hrun⟩
    · exact ih b hb

/-- A loop over the values of `k` whose rounds compute `g`. -/
theorem each_map {γ : Type} {f : β → Timed γ} {k : α → β} {g : α → γ} {as : List α}
    (hf : ∀ a ∈ as, ∀ s v b, (f (k a)).run s = (.ok b, v) → b = g a) {t u : Nat} {bs : List γ}
    (h : (each f (as.map k)).run t = (.ok bs, u)) : bs = as.map g := by
  induction as generalizing t bs with
  | nil =>
    obtain ⟨rfl, -⟩ := timed_pure_ok.mp h
    rfl
  | cons a rest ih =>
    obtain ⟨b, s, hb, h⟩ := timed_bind_ok.mp h
    obtain ⟨bs, s', hbs, h⟩ := timed_bind_ok.mp h
    obtain ⟨rfl, rfl⟩ := timed_pure_ok.mp h
    rw [List.map_cons, hf a List.mem_cons_self _ _ _ hb,
      ih (fun a ha => hf a (List.mem_cons_of_mem _ ha)) hbs]

end SddGov.Python.Clock
