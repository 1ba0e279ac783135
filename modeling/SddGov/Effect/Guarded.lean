import SddGov.Effect.Machine

/-!
# A value behind a lock

Threads share one value and the lock that guards it: a call can read the value,
replace it, take the lock or free it, and `Guard` says which call does what.
What a replacement may do is a `Contract`, an invariant and a preorder on the
value with ghost state.

While a thread holds the lock nobody else replaces the value, so its critical
section is a sequential program: `Triple` is a Hoare triple for it, with one
rule for each way to build a program. `Triple.locked` gives the lock back and
leaves what outlasts the replacements of others.
-/

namespace SddGov.Effect

variable {S : Sig} {ι V Γ ε α β : Type}

/-! ## Guards -/

/-- How the calls of `S` touch a value and its lock. -/
structure Guard (S : Sig) (V : Type) where
  /-- the answers a call can get while the value is this -/
  reads : V → (o : S.Op) → S.Resp o → Prop
  /-- the new value, where the call replaces it -/
  writes : (o : S.Op) → S.Resp o → Option V
  takes : (o : S.Op) → S.Resp o → Bool
  frees : (o : S.Op) → S.Resp o → Bool

/-- A value and the thread that holds its lock. -/
structure Guarded (ι V : Type) where
  value : V
  holder : Option ι

/-- The lock is free again, if the thread held it. -/
def Guarded.free [DecidableEq ι] (w : Guarded ι V) (i : ι) : Guarded ι V :=
  if w.holder = some i then { w with holder := none } else w

/-- The value can be replaced by anyone, the lock is given to one thread at a time, and it is
freed when its holder ends. -/
def Guard.sem [DecidableEq ι] (G : Guard S V) : Sem ι (Guarded ι V) S where
  allows _ w o r := G.reads w.value o r ∧ (G.takes o r = true → w.holder = none)
  next i w o r :=
    if G.takes o r then { w with holder := some i }
    else if G.frees o r then w.free i
    else { w with value := (G.writes o r).getD w.value }
  exit i w := w.free i
  env w w' := w' = w

/-- The call neither takes the lock nor frees it. -/
def Guard.Inside (G : Guard S V) (o : S.Op) : Prop := ∀ r, G.takes o r = false ∧ G.frees o r = false

/-- The call touches neither the lock nor the value. -/
def Guard.Still (G : Guard S V) (o : S.Op) : Prop := G.Inside o ∧ ∀ r, G.writes o r = none

/-- What may become of the value, with ghost state beside it. -/
structure Contract (V Γ : Type) where
  good : V × Γ → Prop
  evolves : V × Γ → V × Γ → Prop
  refl : ∀ σ, evolves σ σ
  trans : ∀ σ₁ σ₂ σ₃, evolves σ₁ σ₂ → evolves σ₂ σ₃ → evolves σ₁ σ₃

/-- The value and the ghost state. -/
def shared (s : Guarded ι V × Γ) : V × Γ := (s.1.value, s.2)

@[simp] theorem shared_free [DecidableEq ι] (w : Guarded ι V) (i : ι) (g : Γ) :
    shared (w.free i, g) = shared (w, g) := by
  unfold shared Guarded.free
  split <;> rfl

theorem Guarded.free_holder [DecidableEq ι] {w : Guarded ι V} {i j : ι} (hne : i ≠ j)
    (h : w.holder = some i) : (w.free j).holder = some i := by
  unfold Guarded.free
  split
  · next hj => exact absurd (Option.some.inj (h.symm.trans hj)) hne
  · exact h

variable [DecidableEq ι] {G : Guard S V} {K : Contract V Γ}

/-- Others replace the value only as the contract allows, and not at all while the thread
holds the lock. -/
def Contract.discipline (K : Contract V Γ) (G : Guard S V) :
    Discipline (G.sem : Sem ι (Guarded ι V) S) Γ where
  inv s := K.good (shared s)
  rely
    | none, s, s' => K.evolves (shared s) (shared s')
    | some i, s, s' => K.evolves (shared s) (shared s')
      ∧ (s.1.holder = some i → s'.1.holder = some i ∧ shared s' = shared s)
  refl := by
    rintro (_ | i) s
    · exact K.refl _
    · exact ⟨K.refl _, fun h => ⟨h, rfl⟩⟩
  trans := by
    rintro (_ | i) s₁ s₂ s₃ h h'
    · exact K.trans _ _ _ h h'
    · refine ⟨K.trans _ _ _ h.1 h'.1, fun hi => ?_⟩
      obtain ⟨hi₂, heq₂⟩ := h.2 hi
      obtain ⟨hi₃, heq₃⟩ := h'.2 hi₂
      exact ⟨hi₃, heq₃.trans heq₂⟩
  exit := by
    intro i s hinv
    refine ⟨s.2, ?_, ?_⟩
    · show K.good (shared (s.1.free i, s.2))
      rw [shared_free]
      exact hinv
    · rintro (_ | j) hj
      · show K.evolves (shared s) (shared (s.1.free i, s.2))
        rw [shared_free]
        exact K.refl _
      · have hji : j ≠ i := fun h => hj (by rw [h])
        exact ⟨by rw [show shared ((G.sem).exit i s.1, s.2)
          = shared s from shared_free ..]; exact K.refl _,
          fun h => ⟨Guarded.free_holder hji h, shared_free ..⟩⟩
  env := by
    intro s w hinv henv
    obtain rfl : w = s.1 := henv
    refine ⟨s.2, hinv, ?_⟩
    rintro (_ | j)
    · exact K.refl _
    · exact ⟨K.refl _, fun h => ⟨h, rfl⟩⟩

/-! ## Critical sections -/

/-- The thread holds the lock, and the value and ghost state satisfy `P`. -/
def Held (i : ι) (P : V × Γ → Prop) (s : Guarded ι V × Γ) : Prop :=
  s.1.holder = some i ∧ P (shared s)

theorem Held.stable {i : ι} {P : V × Γ → Prop} {s s' : Guarded ι V × Γ}
    (hr : (K.discipline G).rely (some i) s s') (h : Held i P s) : Held i P s' := by
  obtain ⟨hi, heq⟩ := hr.2 h.1
  exact ⟨hi, heq ▸ h.2⟩

/-- Run by the holder of the lock from a state with `P`, the program keeps the contract and
leaves `Q` with its result. -/
def Triple (K : Contract V Γ) (G : Guard S V) (i : ι) (P : V × Γ → Prop) (p : Prog S ε α)
    (Q : α → V × Γ → Prop) : Prop :=
  ∀ s, K.good (shared s) → Held i P s →
    (K.discipline G).Safe i (OnOk fun a => Held i (Q a)) p s

/-- What touches neither the value nor the lock disturbs nobody. -/
theorem calls_quiet {i : ι} {p : Prog S ε α} (hp : p.Calls G.Still) :
    p.Calls ((K.discipline G).Quiet i) := by
  refine hp.mono fun o ho s hi => ⟨trivial, fun r _ => ?_⟩
  have hnext : (G.sem).next i s.1 o r = s.1 := by
    show (if G.takes o r then _ else if G.frees o r then _ else _) = _
    rw [(ho.1 r).1, (ho.1 r).2, ho.2 r]
    rfl
  refine ⟨s.2, ?_, fun j => ?_⟩
  · rw [hnext]
    exact hi
  · rw [hnext]
    exact (K.discipline G).refl j s

namespace Triple

variable {i : ι} {P P' : V × Γ → Prop} {Q Q' : α → V × Γ → Prop} {R : β → V × Γ → Prop}

theorem ret {a : α} (h : ∀ σ, P σ → Q a σ) : Triple K G i P (.ret a : Prog S ε α) Q :=
  fun _ _ hs => .ret (fun _ hr => Held.stable hr) ⟨hs.1, h _ hs.2⟩

theorem raise {e : ε} : Triple K G i P (.raise e : Prog S ε α) Q :=
  fun _ _ _ => .raise

theorem mono {p : Prog S ε α} (hp : Triple K G i P p Q) (hpre : ∀ σ, P' σ → P σ)
    (hpost : ∀ a σ, Q a σ → Q' a σ) : Triple K G i P' p Q' :=
  fun s hi hs => (hp s hi ⟨hs.1, hpre _ hs.2⟩).mono fun _ _ _ h a ha =>
    ⟨(h a ha).1, hpost _ _ (h a ha).2⟩

/-- What is known beside the state can be used before the program is looked at. -/
theorem assume {c : Prop} {p : Prog S ε α} (h : c → Triple K G i P p Q) :
    Triple K G i (fun σ => P σ ∧ c) p Q :=
  fun s hi hs => h hs.2.2 s hi ⟨hs.1, hs.2.1⟩

theorem bind {p : Prog S ε α} {f : α → Prog S ε β} (hp : Triple K G i P p Q)
    (hf : ∀ a, Triple K G i (Q a) (f a) R) : Triple K G i P (p.handle f .raise) R :=
  fun s hi hs => (hp s hi hs).bind hi fun a s' hi' ha => hf a s' hi' ha

theorem ofExcept {x : Except ε α} (h : ∀ a, x = .ok a → ∀ σ, P σ → Q a σ) :
    Triple K G i P (Prog.ofExcept x : Prog S ε α) Q := by
  cases x with
  | error e => exact raise
  | ok a => exact ret (h a rfl)

/-- A pure computation, whose result is known from here on. -/
theorem ofExcept_bind {x : Except ε α} {f : α → Prog S ε β}
    (h : ∀ a, x = .ok a → Triple K G i P (f a) R) :
    Triple K G i P ((Prog.ofExcept x).handle f .raise) R := by
  cases x with
  | error e => exact raise
  | ok a => exact h a rfl

/-- One call that leaves the lock alone. -/
theorem access {o : S.Op} {Q : S.Resp o → V × Γ → Prop} (ho : G.Inside o)
    (h : ∀ σ r, K.good σ → P σ → G.reads σ.1 o r →
      ∃ g, K.good ((G.writes o r).getD σ.1, g) ∧ K.evolves σ ((G.writes o r).getD σ.1, g)
        ∧ Q r ((G.writes o r).getD σ.1, g)) :
    Triple K G i P (Prog.perform o : Prog S ε (S.Resp o)) Q := by
  intro s _ hs
  apply Discipline.Safe.perform
  · intro r s₁ s₂ hr hQ a ha
    exact Held.stable hr (hQ a ha)
  · intro s' hr hi'
    refine ⟨trivial, fun r ha => ?_⟩
    have hs' := Held.stable hr hs
    obtain ⟨g, hgood, hevolves, hQ⟩ := h (shared s') r hi' hs'.2 ha.1
    have hnext : (G.sem).next i s'.1 o r
        = { s'.1 with value := (G.writes o r).getD s'.1.value } := by
      show (if G.takes o r then _ else if G.frees o r then _ else _) = _
      rw [(ho r).1, (ho r).2]
      rfl
    refine ⟨g, by rw [hnext]; exact hgood, ?_, ?_⟩
    · rw [hnext]
      rintro (_ | j) hj
      · exact hevolves
      · -- the lock is held by this thread, not by `j`
        refine ⟨hevolves, fun hh => absurd ?_ hj⟩
        rw [← hh, hs'.1]
    · rw [hnext]
      intro a ha'
      obtain rfl := Except.ok.inj ha'
      exact ⟨hs'.1, hQ⟩

/-- A program of calls that touch neither the value nor the lock. -/
theorem still {p : Prog S ε α} (hp : p.Calls G.Still) : Triple K G i P p fun _ => P :=
  fun _ _ hs => (Discipline.Safe.quiet (fun _ _ => Held.stable) (calls_quiet hp) hs).mono
    fun _ _ _ h _ _ => h

/-- Cleaning up with calls that touch neither the value nor the lock. -/
theorem tryFinally {p : Prog S ε α} {fin : Prog S ε Unit} (hp : Triple K G i P p Q)
    (hfin : fin.Calls G.Still) : Triple K G i P (p.tryFinally fin) Q := by
  intro s hi hs
  refine (hp s hi hs).handle hi ?_ ?_
  · intro a s' hi' ha
    exact (still hfin).bind (fun _ => ret fun _ h => h) s' hi' (ha a rfl)
  · intro e s' hi' _
    have hsafe : (K.discipline G).Safe i (fun _ _ => True) fin s' :=
      .quiet (fun _ _ _ h => h) (calls_quiet hfin) trivial
    exact hsafe.handle hi' (fun _ _ _ _ => .raise) fun _ _ _ _ => .raise

end Triple

/-! ## Taking and freeing the lock -/

/-- A fact about the shared state that no replacement takes away. -/
def Contract.Lasting (K : Contract V Γ) (P : V × Γ → Prop) : Prop :=
  ∀ σ σ', K.evolves σ σ' → P σ → P σ'

/-- The call replaces nothing and does not take the lock. -/
def Guard.Leaving (G : Guard S V) (o : S.Op) :
    Prop := ∀ r, G.takes o r = false ∧ G.writes o r = none

/-- Whoever frees the lock keeps what lasts. -/
theorem Contract.Lasting.leaving {i : ι} {P : V × Γ → Prop} (hP : K.Lasting P) {p : Prog S ε α}
    (hp : p.Calls G.Leaving) {s : Guarded ι V × Γ} (hs : P (shared s)) :
    (K.discipline G).Safe i (fun _ s => P (shared s)) p s := by
  induction p generalizing s with
  | ret a => exact fun s' hr _ => hP _ _ hr.1 hs
  | raise e => exact fun s' hr _ => hP _ _ hr.1 hs
  | call o k ih =>
    intro s' hr hi
    refine ⟨trivial, fun r _ => ?_⟩
    have hnext : (G.sem).next i s'.1 o r = if G.frees o r then s'.1.free i else s'.1 := by
      show (if G.takes o r then _ else if G.frees o r then _ else _) = _
      rw [(hp.1 r).1, (hp.1 r).2]
      rfl
    have hfree : (G.sem).next i s'.1 o r = s'.1 ∨ (G.sem).next i s'.1 o r = s'.1.free i := by
      rw [hnext]
      by_cases hf : G.frees o r = true
      · exact .inr (if_pos hf)
      · exact .inl (if_neg hf)
    have hshared : shared ((G.sem).next i s'.1 o r, s'.2) = shared s' := by
      rcases hfree with h | h
      · rw [h]
      · rw [h, shared_free]
    refine ⟨s'.2, ?_, ?_, ?_⟩
    · show K.good (shared _)
      rw [hshared]
      exact hi
    · rintro (_ | j) hj
      · show K.evolves _ (shared _)
        rw [hshared]
        exact K.refl _
      · have hji : j ≠ i := fun h => hj (by rw [h])
        refine ⟨by rw [hshared]; exact K.refl _, fun hh => ⟨?_, hshared⟩⟩
        rcases hfree with h | h
        · rw [h]
          exact hh
        · rw [h]
          exact Guarded.free_holder hji hh
    · exact ih r (hp.2 r) (by rw [hshared]; exact hP _ _ hr.1 hs)

/-- Taking the lock: where the answer says so, it is held from here on. -/
theorem Guard.safe_take {i : ι} {o : S.Op} (hw : ∀ r, G.frees o r = false ∧ G.writes o r = none)
    {s : Guarded ι V × Γ} : (K.discipline G).Safe i
      (OnOk fun r s => G.takes o r = true → Held i (fun _ => True) s)
      (Prog.perform o : Prog S ε (S.Resp o)) s := by
  apply Discipline.Safe.perform
  · intro r s₁ s₂ hr h a ha ht
    exact Held.stable hr (h a ha ht)
  · intro s' _ hi
    refine ⟨trivial, fun r ha => ⟨s'.2, ?_⟩⟩
    by_cases ht : G.takes o r = true
    · have hnext : (G.sem).next i s'.1 o r = { s'.1 with holder := some i } := if_pos ht
      rw [hnext]
      refine ⟨hi, ?_, fun _ _ _ => ⟨rfl, trivial⟩⟩
      rintro (_ | j) hj
      · exact K.refl _
      · -- nobody held it before
        exact ⟨K.refl _, fun hh => absurd (hh.symm.trans (ha.2 ht)) (by simp)⟩
    · have hnext : (G.sem).next i s'.1 o r = s'.1 := by
        show (if G.takes o r then _ else if G.frees o r then _ else _) = _
        rw [if_neg ht, (hw r).1, (hw r).2]
        rfl
      rw [hnext]
      refine ⟨hi, fun j _ => (K.discipline G).refl j s', ?_⟩
      intro a ha' ht'
      obtain rfl := Except.ok.inj ha'
      exact absurd ht' ht

/-- Whatever is cleaned up without touching the value, a lasting fact stays. -/
theorem Contract.Lasting.tryFinally {i : ι} {Q : α → V × Γ → Prop} (hQ : ∀ a, K.Lasting (Q a))
    {p : Prog S ε α} {fin : Prog S ε Unit} {s : Guarded ι V × Γ} (hi : K.good (shared s))
    (hp : (K.discipline G).Safe i (OnOk fun a s => Q a (shared s)) p s)
    (hfin : fin.Calls G.Leaving) :
    (K.discipline G).Safe i (OnOk fun a s => Q a (shared s)) (p.tryFinally fin) s := by
  refine hp.handle hi ?_ ?_
  · intro a s' hi' ha
    refine ((hQ a).leaving hfin (ha a rfl)).handle hi' ?_ fun _ _ _ _ => .raise
    intro _ s'' _ h
    exact .ret (fun _ hr => hQ a _ _ hr.1) h
  · intro e s' hi' _
    have htrue : K.Lasting fun _ => True := fun _ _ _ h => h
    exact (htrue.leaving hfin trivial).handle hi' (fun _ _ _ _ => .raise) fun _ _ _ _ => .raise

/-- **The rule of a critical section**: run with the lock held and given back after it, a section
that leaves a lasting fact leaves it for good. -/
theorem Triple.locked {i : ι} {Q : α → V × Γ → Prop} {p : Prog S ε α} {fin : Prog S ε Unit}
    (hp : Triple K G i (fun _ => True) p Q) (hfin : fin.Calls G.Leaving)
    (hQ : ∀ a, K.Lasting (Q a)) {s : Guarded ι V × Γ} (hi : K.good (shared s))
    (hs : Held i (fun _ => True) s) :
    (K.discipline G).Safe i (OnOk fun a s => Q a (shared s)) (p.tryFinally fin) s :=
  Contract.Lasting.tryFinally hQ hi ((hp s hi hs).mono fun _ _ _ h a ha => (h a ha).2) hfin

end SddGov.Effect
