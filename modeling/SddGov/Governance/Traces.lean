import SddGov.Governance.Host

/-!
# Traces of the host programs

The programs of `Host` read backwards: from a trace that ends with a result,
each lemma gives the calls that were made and what their answers must have
been.
-/

namespace SddGov.Governance

open SddGov.Effect SddGov.Python

variable {t : List (Event hostSig)}

theorem runs_ask {o : HostOp} {x : Outcome Exn (hostSig.Resp o)}
    (h : Runs (ask o) t x) : ∃ r, t = [⟨o, r⟩] ∧ x = .ok r := by
  obtain ⟨r, t, rfl, h1⟩ := runs_call h
  obtain ⟨rfl, rfl⟩ := runs_ret h1
  exact ⟨r, rfl, rfl⟩

theorem runs_raising {α : Type} {p : HostProg (Except Exn α)} {a : α}
    (h : Runs (raising p) t (.ok a)) : Runs p t (.ok (.ok a)) := by
  obtain ⟨t₁, t₂, y, rfl, h₁, h₂⟩ := runs_bind h
  obtain ⟨rfl, rfl⟩ := runs_ofExcept h₂
  rw [List.append_nil]
  exact h₁

theorem runs_sys {α : Type} {p : HostProg (Sys α)} {a : α}
    (h : Runs (sys p) t (.ok a)) : Runs p t (.ok (.ok a)) := by
  obtain ⟨t₁, t₂, y, rfl, h₁, h₂⟩ := runs_bind h
  cases y with
  | error e => exact absurd (runs_raise h₂).2 (by simp)
  | ok b =>
    obtain ⟨rfl, hb⟩ := runs_ret h₂
    obtain rfl := Except.ok.inj hb
    rw [List.append_nil]
    exact h₁

theorem runs_readJson {file : StateFile} {default v : Json}
    (h : Runs (readJson file default) t (.ok v)) :
    ∃ r, t = [⟨.readJson file, .ok r⟩] ∧ v = r.getD default := by
  obtain ⟨t₁, t₂, r, rfl, h₁, h₂⟩ := runs_bind h
  obtain ⟨rfl, hv⟩ := runs_ret h₂
  obtain ⟨r', rfl, hr⟩ := runs_ask (runs_raising h₁)
  obtain rfl := Except.ok.inj hr
  exact ⟨r, rfl, Except.ok.inj hv⟩

theorem runs_writeJson {file : StateFile} {value : Json}
    (h : Runs (writeJson file value) t (.ok ())) :
    (⟨.replace file value, .ok ()⟩ : Event hostSig) ∈ t := by
  obtain ⟨t₁, t₂, _, rfl, -, h⟩ := runs_bind h
  obtain ⟨t₃, t₄, _, rfl, -, h⟩ := runs_bind h
  obtain ⟨t₅, t₆, rfl, h, -⟩ := runs_tryFinally h
  obtain ⟨t₇, t₈, _, rfl, -, h⟩ := runs_bind h
  obtain ⟨t₉, t₁₀, _, rfl, -, h⟩ := runs_bind h
  obtain ⟨r, rfl, hr⟩ := runs_ask (runs_sys h)
  obtain rfl := Except.ok.inj hr
  simp

/-- Around its body `withLock` only opens and closes the lock. -/
theorem runs_withLock_around {α : Type} {lock : StateLock} {body : HostProg α} {a : α}
    (h : Runs (withLock lock body) t (.ok a)) :
    ∃ t₁ t₂ t₃, t = t₁ ++ t₂ ++ t₃ ∧ Runs body t₂ (.ok a)
      ∧ ∀ e ∈ t₁ ++ t₃, ∀ f v, e.1 ≠ HostOp.replace f v := by
  have hcalls {p : HostProg Unit} (hp : p.Calls fun o => ∀ f v, o ≠ HostOp.replace f v)
      {t : List (Event hostSig)} {x : Outcome Exn Unit} (h : Runs p t x) :
      ∀ e ∈ t, ∀ f v, e.1 ≠ HostOp.replace f v := hp.runs h
  obtain ⟨t₁, t₂, _, rfl, hparent, h⟩ := runs_bind h
  obtain ⟨t₃, t₄, _, rfl, hopen, h⟩ := runs_bind h
  obtain ⟨t₅, t₆, rfl, h, hclose⟩ := runs_tryFinally h
  obtain ⟨t₇, t₈, _, rfl, hflock, h⟩ := runs_bind h
  obtain ⟨t₉, t₁₀, rfl, h, hunflock⟩ := runs_tryFinally h
  refine ⟨t₁ ++ t₃ ++ t₇, t₉, t₁₀ ++ t₆, by simp, h, ?_⟩
  have h₁ := hcalls (calls_sys (.perform (by simp))) hparent
  have h₃ := hcalls (calls_sys (.perform (by simp))) hopen
  have h₇ := hcalls (calls_sys (.perform (by simp))) hflock
  have h₁₀ := hcalls (calls_sys (.perform (by simp))) hunflock
  have h₆ := hcalls (calls_sys (.perform (by simp))) hclose
  simp only [List.forall_mem_append]
  exact ⟨⟨⟨h₁, h₃⟩, h₇⟩, h₁₀, h₆⟩

theorem runs_withLock {α : Type} {lock : StateLock} {body : HostProg α} {a : α}
    (h : Runs (withLock lock body) t (.ok a)) :
    ∃ t₁ t₂ t₃, t = t₁ ++ t₂ ++ t₃ ∧ Runs body t₂ (.ok a) := by
  obtain ⟨t₁, t₂, t₃, ht, hbody, -⟩ := runs_withLock_around h
  exact ⟨t₁, t₂, t₃, ht, hbody⟩

end SddGov.Governance
