import SddGov.Effect.Prog

/-!
# One commit, and an end at the first failure

A program that changes the world by one call, its commit, and then does what
comes with it, is of two parts: calls that change nothing, and calls of a kind
`late` (`Commits`). A program that ends with an exception at the first call that
fails, and changes nothing on its way out, is fail-stop (`FailStop`). Both are
read off the way a program is built. Together they say what a failure does: the
world is as it was if and only if the call failed before the commit.
-/

namespace SddGov.Effect

variable {S : Sig} {ε α β : Type} {fails changes commits : Event S → Prop} {late : S.Op → Prop}

/-- No event of the trace changes the world. -/
def Untouched (changes : Event S → Prop) (t : List (Event S)) : Prop := ∀ event ∈ t, ¬changes event

/-- After a call that fails the program changes nothing and ends with an exception. -/
def FailStop (fails changes : Event S → Prop) (p : Prog S ε α) : Prop :=
  ∀ t x, Runs p t x → ∀ before event after, t = before ++ event :: after → fails event →
    Untouched changes after ∧ ∃ e, x = .error e

/-- What changes the world is the commit or comes after it, where every call is a late one. -/
def Commits (changes commits : Event S → Prop) (late : S.Op → Prop) (p : Prog S ε α) : Prop :=
  ∀ t x, Runs p t x → Untouched changes t ∨
    ∃ before event after, t = before ++ event :: after ∧ commits event
      ∧ Untouched changes before ∧ ∀ g ∈ after, late g.1

theorem Untouched.append {t₁ t₂ : List (Event S)} (h₁ : Untouched changes t₁)
    (h₂ : Untouched changes t₂) : Untouched changes (t₁ ++ t₂) :=
  List.forall_mem_append.mpr ⟨h₁, h₂⟩

theorem untouched_nil : Untouched changes ([] : List (Event S)) := by
  intro event h
  exact absurd h (by simp)

/-- A call whose answers change nothing. -/
def Harmless (changes : Event S → Prop) (o : S.Op) : Prop := ∀ r, ¬changes ⟨o, r⟩

theorem Prog.Calls.untouched {p : Prog S ε α} (hp : p.Calls (Harmless changes)) {t : List (Event S)}
    {x : Outcome ε α} (h : Runs p t x) : Untouched changes t := by
  intro event he
  exact hp.runs h event he event.2

/-! ## Fail-stop programs -/

namespace FailStop

theorem ret (a : α) : FailStop fails changes (.ret a : Prog S ε α) := by
  intro t x h before event after ht
  obtain ⟨rfl, -⟩ := runs_ret h
  exact absurd ht (by simp)

theorem raise (e : ε) : FailStop fails changes (.raise e : Prog S ε α) := by
  intro t x h before event after ht
  obtain ⟨rfl, -⟩ := runs_raise h
  exact absurd ht (by simp)

theorem ofExcept (y : Except ε α) : FailStop fails changes (Prog.ofExcept y : Prog S ε α) := by
  cases y with
  | ok a => exact ret a
  | error e => exact raise e

/-- One call: where it fails, what follows raises without a further call. -/
theorem call {o : S.Op} {k : S.Resp o → Prog S ε α} (hk : ∀ r, FailStop fails changes (k r))
    (hfail : ∀ r, fails ⟨o, r⟩ → ∃ e, k r = .raise e) : FailStop fails changes (.call o k) := by
  intro t x h before event after ht hevent
  obtain ⟨r, t', rfl, h'⟩ := runs_call h
  cases before with
  | nil =>
    obtain ⟨rfl, rfl⟩ := List.cons.inj ht
    obtain ⟨e, he⟩ := hfail r hevent
    rw [he] at h'
    obtain ⟨rfl, rfl⟩ := runs_raise h'
    exact ⟨untouched_nil, e, rfl⟩
  | cons first before =>
    obtain ⟨-, rfl⟩ := List.cons.inj ht
    exact hk r _ _ h' before event after rfl hevent

/-- A program that stops at the first failing call stays one when it goes on with another. -/
theorem bind {p : Prog S ε α} {f : α → Prog S ε β} (hp : FailStop fails changes p)
    (hf : ∀ a, FailStop fails changes (f a)) : FailStop fails changes (p.handle f .raise) := by
  intro t x h before event after ht hevent
  obtain ⟨t₁, t₂, y, rfl, h₁, h₂⟩ := runs_handle h
  rcases List.append_eq_append_iff.mp ht with ⟨l, rfl, hl⟩ | ⟨l, rfl, hl⟩
  · -- the call that fails is one of the second program
    cases y with
    | ok a => exact hf a _ _ h₂ l event after hl hevent
    | error e =>
      obtain ⟨rfl, -⟩ := runs_raise h₂
      exact absurd hl (by simp)
  · cases l with
    | nil =>
      rw [List.nil_append] at hl
      cases y with
      | ok a => exact hf a _ _ h₂ [] event after hl.symm hevent
      | error e =>
        obtain ⟨rfl, -⟩ := runs_raise h₂
        exact absurd hl (by simp)
    | cons first l =>
      -- it is one of the first program, which ends with the exception
      obtain ⟨rfl, rfl⟩ := List.cons.inj hl
      obtain ⟨huntouched, e, rfl⟩ := hp _ _ h₁ before event l rfl hevent
      obtain ⟨rfl, rfl⟩ := runs_raise h₂
      exact ⟨huntouched.append untouched_nil, e, rfl⟩

/-- The end of `try: p finally: fin` where `fin` is harmless. -/
theorem tryFinally {p : Prog S ε α} {fin : Prog S ε Unit} (hp : FailStop fails changes p)
    (hfin : FailStop fails changes fin) (hcalls : fin.Calls (Harmless changes)) :
    FailStop fails changes (p.tryFinally fin) := by
  intro t x h before event after ht hevent
  obtain ⟨t₁, t₂, y, rfl, h₁, h₂⟩ := runs_handle h
  have hlast : ∀ l, t₂ = l ++ event :: after → Untouched changes after ∧ ∃ e, x = .error e := by
    intro l hl
    cases y with
    | ok a => exact (hfin.bind fun _ => ret a) _ _ h₂ l event after hl hevent
    | error e => exact (hfin.bind fun _ => raise e) _ _ h₂ l event after hl hevent
  rcases List.append_eq_append_iff.mp ht with ⟨l, rfl, hl⟩ | ⟨l, rfl, hl⟩
  · exact hlast l hl
  · cases l with
    | nil => exact hlast [] hl.symm
    | cons first l =>
      obtain ⟨rfl, rfl⟩ := List.cons.inj hl
      obtain ⟨huntouched, e, rfl⟩ := hp _ _ h₁ before event l rfl hevent
      -- the clean-up changes nothing and raises again
      have hclean : (fin.handle (fun _ => .raise e) .raise : Prog S ε α).Calls (Harmless changes) :=
        hcalls.bind fun _ => trivial
      refine ⟨huntouched.append (hclean.untouched h₂), ?_⟩
      obtain ⟨t₃, t₄, z, rfl, -, h₄⟩ := runs_handle h₂
      cases z with
      | ok u => exact ⟨e, (runs_raise h₄).2⟩
      | error e' => exact ⟨e', (runs_raise h₄).2⟩

end FailStop

/-! ## Programs with one commit -/

namespace Commits

theorem quiet {p : Prog S ε α} (hp : p.Calls (Harmless changes)) :
    Commits changes commits late p := by
  intro t x h
  exact .inl (hp.untouched h)

/-- First a part that changes nothing. -/
theorem after {p : Prog S ε α} {f : α → Prog S ε β} (hp : p.Calls (Harmless changes))
    (hf : ∀ a, Commits changes commits late (f a)) :
    Commits changes commits late (p.handle f .raise) := by
  intro t x h
  obtain ⟨t₁, t₂, y, rfl, h₁, h₂⟩ := runs_handle h
  have hfirst := hp.untouched h₁
  cases y with
  | error e =>
    obtain ⟨rfl, -⟩ := runs_raise h₂
    exact .inl (by rwa [List.append_nil])
  | ok a =>
    rcases hf a _ _ h₂ with hquiet | ⟨before, event, rest, rfl, hcommit, hbefore, hlate⟩
    · exact .inl (hfirst.append hquiet)
    · exact .inr ⟨t₁ ++ before, event, rest, by simp, hcommit, hfirst.append hbefore, hlate⟩

/-- Last a part whose calls are late and that is reached only after the commit. -/
theorem before {p : Prog S ε α} {f : α → Prog S ε β} (hp : Commits changes commits late p)
    (hreached : ∀ t a, Runs p t (.ok a) → ∃ event ∈ t, commits event)
    (hchanges : ∀ event, commits event → changes event) (hf : ∀ a, (f a).Calls late) :
    Commits changes commits late (p.handle f .raise) := by
  intro t x h
  obtain ⟨t₁, t₂, y, rfl, h₁, h₂⟩ := runs_handle h
  cases y with
  | error e =>
    obtain ⟨rfl, -⟩ := runs_raise h₂
    rw [List.append_nil]
    exact hp _ _ h₁
  | ok a =>
    rcases hp _ _ h₁ with hquiet | ⟨before, event, rest, rfl, hcommit, hbefore, hlate⟩
    · obtain ⟨event, hmem, hcommit⟩ := hreached _ _ h₁
      exact absurd (hchanges event hcommit) (hquiet event hmem)
    · refine .inr ⟨before, event, rest ++ t₂, by simp, hcommit, hbefore, ?_⟩
      exact List.forall_mem_append.mpr ⟨hlate, (hf a).runs h₂⟩

/-- A result that is only passed on. -/
theorem map {p : Prog S ε α} (hp : Commits changes commits late p) (f : α → β) :
    Commits changes commits late (p.handle (fun a => .ret (f a)) .raise) := by
  intro t x h
  obtain ⟨t₁, t₂, y, rfl, h₁, h₂⟩ := runs_handle h
  have hnil : t₂ = [] := by
    cases y with
    | ok a => exact (runs_ret h₂).1
    | error e => exact (runs_raise h₂).1
  rw [hnil, List.append_nil]
  exact hp _ _ h₁

/-- A harmless clean-up of late calls. -/
theorem tryFinally {p : Prog S ε α} {fin : Prog S ε Unit} (hp : Commits changes commits late p)
    (hfin : fin.Calls fun o => Harmless changes o ∧ late o) :
    Commits changes commits late (p.tryFinally fin) := by
  intro t x h
  obtain ⟨t₁, t₂, y, rfl, h₁, h₂⟩ := runs_handle h
  have hclean : (Prog.resume (fun a => fin.handle (fun _ => .ret a) .raise)
      (fun e => fin.handle (fun _ => .raise e) .raise) y : Prog S ε α).Calls
        fun o => Harmless changes o ∧ late o := by
    cases y with
    | ok a => exact hfin.bind fun _ => trivial
    | error e => exact hfin.bind fun _ => trivial
  have hlast := hclean.runs h₂
  rcases hp _ _ h₁ with hquiet | ⟨before, event, rest, rfl, hcommit, hbefore, hlate⟩
  · exact .inl (hquiet.append fun g hg => (hlast g hg).1 g.2)
  · refine .inr ⟨before, event, rest ++ t₂, by simp, hcommit, hbefore, ?_⟩
    exact List.forall_mem_append.mpr ⟨hlate, fun g hg => (hlast g hg).2⟩

/-- The commit itself, where it changes nothing unless it succeeds. -/
theorem call {o : S.Op} {k : S.Resp o → Prog S ε α} (ho : ∀ r, changes ⟨o, r⟩ → commits ⟨o, r⟩)
    (hk : ∀ r, (k r).Calls fun o => Harmless changes o ∧ late o) :
    Commits changes commits late (.call o k) := by
  intro t x h
  obtain ⟨r, t', rfl, h'⟩ := runs_call h
  have hrest := (hk r).runs h'
  by_cases hr : changes ⟨o, r⟩
  · exact .inr ⟨[], ⟨o, r⟩, t', rfl, ho r hr, untouched_nil, fun g hg => (hrest g hg).2⟩
  · refine .inl ?_
    intro g hg
    rcases List.mem_cons.mp hg with rfl | hg
    · exact hr
    · exact (hrest g hg).1 g.2

end Commits

/-! ## What a failure does -/

/-- A fail-stop program with one commit has changed nothing after a failure if and only if
the call failed before the commit. -/
theorem untouched_iff {p : Prog S ε α} (hstop : FailStop fails changes p)
    (hcommits : Commits changes commits late p) (hchanges : ∀ event, commits event → changes event)
    (hfails : ∀ event, commits event → ¬fails event) {before after : List (Event S)}
    {event : Event S}
    {x : Outcome ε α} (h : Runs p (before ++ event :: after) x) (hevent : fails event) :
    Untouched changes (before ++ event :: after) ↔ ∀ g ∈ before, ¬commits g := by
  constructor
  · intro huntouched g hg hcommit
    exact huntouched g (List.mem_append_left _ hg) (hchanges g hcommit)
  · intro hearly
    rcases hcommits _ _ h with hquiet | ⟨first, commit, rest, ht, hcommit, -, -⟩
    · exact hquiet
    · -- the commit would stand before the call that failed, be it, or come after it
      have hmem : commit ∈ before ++ event :: after := by simp [ht]
      rcases List.mem_append.mp hmem with hm | hm
      · exact absurd hcommit (hearly commit hm)
      · rcases List.mem_cons.mp hm with rfl | hm
        · exact absurd hevent (hfails commit hcommit)
        · exact absurd (hchanges commit hcommit)
            ((hstop _ _ h before event after rfl hevent).1 commit hm)

/-- What fails after the commit is a late call. -/
theorem late_of_touched {p : Prog S ε α} (hstop : FailStop fails changes p)
    (hcommits : Commits changes commits late p) (hchanges : ∀ event, commits event → changes event)
    (hfails : ∀ event, commits event → ¬fails event) {before after : List (Event S)}
    {event : Event S}
    {x : Outcome ε α} (h : Runs p (before ++ event :: after) x) (hevent : fails event)
    (htouched : ¬Untouched changes (before ++ event :: after)) : late event.1 := by
  rcases hcommits _ _ h with hquiet | ⟨first, commit, rest, ht, hcommit, -, hlate⟩
  · exact absurd hquiet htouched
  rcases List.append_eq_append_iff.mp ht with ⟨l, rfl, hl⟩ | ⟨l, rfl, hl⟩
  · cases l with
    | nil =>
      obtain ⟨rfl, -⟩ := List.cons.inj hl
      exact absurd hevent (hfails _ hcommit)
    | cons head l =>
      -- the commit comes after the failure
      obtain ⟨rfl, rfl⟩ := List.cons.inj hl
      have hafter := (hstop _ _ h before event _ rfl hevent).1 commit (by simp)
      exact absurd (hchanges commit hcommit) hafter
  · cases l with
    | nil =>
      obtain ⟨rfl, -⟩ := List.cons.inj hl
      exact absurd hevent (hfails _ hcommit)
    | cons head l =>
      obtain ⟨rfl, rfl⟩ := List.cons.inj hl
      exact hlate event (by simp)

end SddGov.Effect
