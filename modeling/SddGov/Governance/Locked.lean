import SddGov.Effect.Guarded
import SddGov.Governance.Host

/-!
# Files behind their locks

`fileGuard` is a file that is read and replaced as a whole, with the `flock` of
its lock file; every other call is left open. On top of it stand the rules for
the programs of `Host`: a read in a critical section gets the content, a write
replaces it as the contract allows, and `withLock` is a critical section.
-/

namespace SddGov.Governance

open SddGov.Effect SddGov.Python

/-- How the calls touch a file and its lock. A read gets the content or fails, and the lock goes
with the descriptor that holds it. -/
def fileGuard (file : StateFile) (lock : StateLock) : Guard hostSig (Option Json) where
  reads content o r :=
    match o, r with
    | .readJson f, r => f = file → r = .ok content ∨ ∃ e, r = .error e
    | _, _ => True
  writes o r :=
    match o, r with
    | .replace f v, .ok _ => if f = file then some (some v) else none
    | _, _ => none
  takes o r :=
    match o, r with
    | .flock l, .ok _ => l = lock
    | _, _ => false
  frees o r :=
    match o, r with
    | .unflock l, .ok _ => l = lock
    | .closeLock l, _ => l = lock
    | _, _ => false

/-- The calls that replace the file, take its lock or free it. -/
def Touches (file : StateFile) (lock : StateLock) : HostOp → Prop
  | .replace f _ => f = file
  | .flock l => l = lock
  | .unflock l => l = lock
  | .closeLock l => l = lock
  | _ => False

variable {ι Γ α : Type} {file : StateFile} {lock : StateLock}

/-- A call that touches neither the file nor its lock leaves both still. -/
theorem still_of_not_touches {o : HostOp} (h : ¬Touches file lock o) :
    (fileGuard file lock).Still o := by
  refine ⟨fun r => ?_, fun r => ?_⟩
  · cases o with
    | flock l =>
      have hne : ¬l = lock := h
      cases r <;> simp [fileGuard, hne]
    | unflock l =>
      have hne : ¬l = lock := h
      cases r <;> simp [fileGuard, hne]
    | closeLock l =>
      have hne : ¬l = lock := h
      exact ⟨rfl, decide_eq_false hne⟩
    | _ => exact ⟨rfl, rfl⟩
  · cases o with
    | replace f v =>
      have hne : ¬f = file := h
      cases r <;> simp [fileGuard, hne]
    | _ => rfl

/-- A program that leaves the file and its lock alone. -/
theorem calls_still {p : HostProg α} (h : p.Calls fun o => ¬Touches file lock o) :
    p.Calls (fileGuard file lock).Still :=
  h.mono fun _ => still_of_not_touches

/-! ## Critical sections -/

variable [DecidableEq ι] {K : Contract (Option Json) Γ} {i : ι} {P P' : Option Json × Γ → Prop}

/-- An exception for each failed answer. -/
theorem triple_sys {p : HostProg (Sys α)} {Q : α → Option Json × Γ → Prop}
    (hp : Triple K (fileGuard file lock) i P p fun r σ => ∀ a, r = .ok a → Q a σ) :
    Triple K (fileGuard file lock) i P (sys p) Q := by
  apply hp.bind
  intro r
  cases r with
  | error e => exact .raise
  | ok a => exact .ret fun _ h => h a rfl

/-- Reading the guarded file gives what it holds. -/
theorem triple_readJson {default : Json} :
    Triple K (fileGuard file lock) i P (readJson file default)
      fun v σ => P σ ∧ v = σ.1.getD default := by
  have hread : Triple K (fileGuard file lock) i P (ask (.readJson file))
      fun r σ => P σ ∧ (r = .ok σ.1 ∨ ∃ e, r = .error e) := by
    apply Triple.access fun _ => ⟨rfl, rfl⟩
    intro σ r hgood hP hr
    exact ⟨σ.2, hgood, K.refl _, hP, hr rfl⟩
  have hraise : Triple K (fileGuard file lock) i P (raising (ask (.readJson file)))
      fun data σ => P σ ∧ data = σ.1 := by
    apply hread.bind
    intro r
    apply Triple.ofExcept
    rintro data rfl σ ⟨hP, hr⟩
    rcases hr with hr | ⟨e, hr⟩
    · exact ⟨hP, Except.ok.inj hr⟩
    · exact absurd hr (by simp)
  apply hraise.bind
  intro data
  apply Triple.ret
  rintro σ ⟨hP, rfl⟩
  exact ⟨hP, rfl⟩

/-- The file is replaced as a whole, where the contract allows the new content. -/
theorem triple_replace {v : Json} (h : ∀ σ, K.good σ → P σ →
      ∃ g, K.good (some v, g) ∧ K.evolves σ (some v, g) ∧ P' (some v, g)) :
    Triple K (fileGuard file lock) i P (sys (ask (.replace file v))) fun _ => P' := by
  apply triple_sys
  apply Triple.access fun r => by cases r <;> exact ⟨rfl, rfl⟩
  intro σ r hgood hP _
  cases r with
  | error e => exact ⟨σ.2, hgood, K.refl _, fun _ h => absurd h (by simp)⟩
  | ok u =>
    obtain ⟨g, hgood', hevolves, hP'⟩ := h σ hgood hP
    have hwrites : ((fileGuard file lock).writes (.replace file v) (.ok u)).getD σ.1 = some v := by
      simp [fileGuard]
    rw [hwrites]
    exact ⟨g, hgood', hevolves, fun _ _ => hP'⟩

/-- Writing the guarded file asks that the new content is good and evolves from the old one. -/
theorem triple_writeJson {v : Json} (h : ∀ σ, K.good σ → P σ →
      ∃ g, K.good (some v, g) ∧ K.evolves σ (some v, g) ∧ P' (some v, g)) :
    Triple K (fileGuard file lock) i P (writeJson file v) fun _ => P' := by
  have hparent : (sys (ask (.makeParent file))).Calls fun o => ¬Touches file lock o :=
    calls_sys (.perform id)
  have htemporary : (sys (ask (.makeTemporary file))).Calls fun o => ¬Touches file lock o :=
    calls_sys (.perform id)
  have hsync : (sys (ask (.syncTemporary file))).Calls fun o => ¬Touches file lock o :=
    calls_sys (.perform id)
  have hunlink : (unlinkTemporary file).Calls fun o => ¬Touches file lock o := by
    refine Prog.Calls.handle (calls_sys (.perform id)) (fun _ => trivial) fun e => ?_
    exact .ite trivial trivial
  apply (Triple.still (calls_still hparent)).bind
  intro _
  apply (Triple.still (calls_still htemporary)).bind
  intro _
  refine Triple.tryFinally ?_ (calls_still hunlink)
  apply (Triple.still (calls_still (calls_writeTemporary id))).bind
  intro _
  apply (Triple.still (calls_still hsync)).bind
  intro _
  exact triple_replace h

/-! ## The lock -/

/-- **The rule of `withLock`.** -/
theorem safe_withLock {body : HostProg α} {Q : α → Option Json × Γ → Prop}
    (hbody : Triple K (fileGuard file lock) i (fun _ => True) body Q)
    (hQ : ∀ a, K.Lasting (Q a)) {s : Guarded ι (Option Json) × Γ} (hi : K.good (shared s)) :
    (K.discipline (fileGuard file lock)).Safe i (OnOk fun a s => Q a (shared s))
      (withLock lock body) s := by
  have hparent : (sys (ask (.makeParent lock.file))).Calls fun o => ¬Touches file lock o :=
    calls_sys (.perform id)
  have hopen : (sys (ask (.openLock lock))).Calls fun o => ¬Touches file lock o :=
    calls_sys (.perform id)
  have hquiet {p : HostProg Unit} (hp : p.Calls fun o => ¬Touches file lock o)
      (s : Guarded ι (Option Json) × Γ) : (K.discipline (fileGuard file lock)).Safe i
        (OnOk fun _ _ => True) p s :=
    (Discipline.Safe.quiet (fun _ _ _ h => h) (calls_quiet (calls_still hp)) trivial).mono
      fun _ _ _ h _ _ => h
  have hunflock : (sys (ask (.unflock lock))).Calls (fileGuard file lock).Leaving :=
    calls_sys (.perform fun r => by cases r <;> exact ⟨rfl, rfl⟩)
  have hclose : (sys (ask (.closeLock lock))).Calls (fileGuard file lock).Leaving :=
    calls_sys (.perform fun r => ⟨rfl, rfl⟩)
  refine (hquiet hparent s).bind hi fun _ s₁ hi₁ _ => ?_
  refine (hquiet hopen s₁).bind hi₁ fun _ s₂ hi₂ _ => ?_
  refine Contract.Lasting.tryFinally hQ hi₂ ?_ hclose
  have hflock : (K.discipline (fileGuard file lock)).Safe i
      (OnOk fun _ s => Held i (fun _ => True) s) (sys (ask (.flock lock)) : HostProg Unit) s₂ := by
    refine (Guard.safe_take fun r => by cases r <;> exact ⟨rfl, rfl⟩).bind hi₂ fun r s₃ _ h => ?_
    cases r with
    | error e => exact .raise
    | ok u => exact .ret (fun _ hr => Held.stable hr) (h (by simp [fileGuard]))
  exact hflock.bind hi₂ fun _ s₃ hi₃ hheld => hbody.locked hunflock hQ hi₃ hheld

/-- What leaves the file and its lock alone disturbs nobody, and ends as one of its traces does. -/
theorem safe_apart {p : HostProg α} {s : Guarded ι (Option Json) × Γ}
    (hp : p.Calls fun o => ¬Touches file lock o) :
    (K.discipline (fileGuard file lock)).Safe i (fun x _ => ∃ t, Runs p t x) p s := by
  have hquiet := calls_quiet (K := K) (i := i) (calls_still hp)
  clear hp
  induction p generalizing s with
  | ret a => exact fun _ _ _ => ⟨[], .ret a⟩
  | raise e => exact fun _ _ _ => ⟨[], .raise e⟩
  | call o k ih =>
    intro s' hr hi
    obtain ⟨hpre, h⟩ := hquiet.1 s' hi
    refine ⟨hpre, fun r ha => ?_⟩
    obtain ⟨g, hinv, hrely⟩ := h r ha
    refine ⟨g, hinv, fun j _ => hrely j, ?_⟩
    exact (ih r (hquiet.2 r)).mono fun _ _ _ ⟨t, ht⟩ => ⟨_, .call o ht⟩

/-- A program that leaves the file and its lock alone comes first. -/
theorem safe_after {β : Type} {p : HostProg α} {f : α → HostProg β}
    {s : Guarded ι (Option Json) × Γ} (hp : p.Calls fun o => ¬Touches file lock o)
    (hi : K.good (shared s)) (hf : ∀ a t s, Runs p t (.ok a) → K.good (shared s) →
      (K.discipline (fileGuard file lock)).Safe i (fun _ _ => True) (f a) s) :
    (K.discipline (fileGuard file lock)).Safe i (fun _ _ => True) (p.handle f .raise) s :=
  (safe_apart hp).handle hi (fun a s' hi' ⟨t, ht⟩ => hf a t s' ht hi') fun _ _ _ _ _ _ _ => trivial

end SddGov.Governance
