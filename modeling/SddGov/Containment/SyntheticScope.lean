import SddGov.Python.Exn

/-!
# The synthetic containment scope

`SyntheticCgroupV2Scope` and the `SyntheticAtomicLauncher` that drives it, with
the arithmetic of the clock left open. As long as every kill sees its emptiness
before its deadline, the two objects are in one of five stages, whose events are
the first ones of the protocol (`calls_stage`). A missed deadline leaves them:
the scope counts as killed and empty, so that it can be removed but no longer
emptied (`protocol_iff`, `late_kill_skips_populated_zero`).
-/

namespace SddGov.Containment

open SddGov.Python

/-! ## The scope -/

inductive ScopeEvent
  | limitsConfigured | runtimeFdVerified | atomicallyAttached | cgroupKill | populatedZero
      | scopeRemoved
  deriving DecidableEq

/-- The events in their order. -/
def protocol : List ScopeEvent :=
  [.limitsConfigured, .runtimeFdVerified, .atomicallyAttached, .cgroupKill, .populatedZero,
    .scopeRemoved]

/-- The numbers that `time.monotonic` returns: their sum and the two comparisons that are made, and
that some kill is in time. -/
structure Clock (Time : Type) where
  add : Time → Time → Time
  nonpositive : Time → Bool
  later : Time → Time → Bool
  exists_prompt : ∃ timeout start finish, nonpositive timeout = false
    ∧ later finish (add start timeout) = false

structure SyntheticCgroupV2Scope where
  configured : Bool
  atomicallyAttached : Bool
  killed : Bool
  populated : Bool
  removed : Bool
  events : List ScopeEvent
  deriving DecidableEq

/-- A wait: the timeout and the two readings of the clock. -/
structure Wait (Time : Type) where
  timeout : Time
  start : Time
  finish : Time

variable {Time : Type} (K : Clock Time)

/-- The second reading is past the deadline. -/
def Wait.isLate (w : Wait Time) : Bool := K.later w.finish (K.add w.start w.timeout)

namespace SyntheticCgroupV2Scope

variable (s : SyntheticCgroupV2Scope)

def configure : SyntheticCgroupV2Scope × Except PyStr Unit :=
  if s.configured || s.removed then (s, .error (lit "cgroup_scope_state_invalid"))
  else (⟨true, s.atomicallyAttached, s.killed, s.populated, s.removed, s.events
    ++ [.limitsConfigured]⟩, .ok ())

def attachAtLaunch : SyntheticCgroupV2Scope × Except PyStr Unit :=
  if !s.configured || s.atomicallyAttached || s.killed || s.removed then
    (s, .error (lit "cgroup_atomic_attach_required"))
  else (⟨s.configured, true, s.killed, true, s.removed, s.events ++ [.atomicallyAttached]⟩, .ok ())

def killAndWaitEmpty (w : Wait Time) : SyntheticCgroupV2Scope × Except PyStr Unit :=
  if !s.atomicallyAttached || s.killed || s.removed || K.nonpositive w.timeout then
    (s, .error (lit "cgroup_cleanup_invalid"))
  else if w.isLate K then
    -- the kill has happened, and nothing is taken back
    (⟨s.configured, s.atomicallyAttached, true, false, s.removed, s.events ++ [.cgroupKill]⟩,
      .error (lit "cgroup_not_empty_after_kill"))
  else
    (⟨s.configured, s.atomicallyAttached, true, false, s.removed, s.events ++ [.cgroupKill]
      ++ [.populatedZero]⟩,
      .ok ())

def remove : SyntheticCgroupV2Scope × Except PyStr Unit :=
  if !s.killed || s.populated || s.removed then (s, .error (lit "cgroup_remove_denied"))
  else (⟨s.configured, s.atomicallyAttached, s.killed, s.populated, true, s.events
    ++ [.scopeRemoved]⟩, .ok ())

end SyntheticCgroupV2Scope

/-! ## The launcher -/

/-- A `SyntheticAtomicLauncher` with its scope. -/
structure SyntheticAtomicLauncher where
  scope : SyntheticCgroupV2Scope
  launchedDescriptor : Option Int
  completed : Bool
  deriving DecidableEq

namespace SyntheticAtomicLauncher

variable (l : SyntheticAtomicLauncher)

/-- `launch`, where `fileno` verifies the image or raises. -/
def launch (fileno : Except PyStr Int) : SyntheticAtomicLauncher × Except PyStr Unit :=
  if l.launchedDescriptor.isSome || l.completed || !l.scope.configured || l.scope.atomicallyAttached
      || l.scope.killed || l.scope.removed then
    (l, .error (lit "atomic_launcher_state_invalid"))
  else
    match fileno with
    | .error e => (l, .error e)
    | .ok descriptor =>
      let verified : SyntheticCgroupV2Scope :=
        ⟨l.scope.configured, l.scope.atomicallyAttached, l.scope.killed,
        l.scope.populated, l.scope.removed, l.scope.events ++ [.runtimeFdVerified]⟩
      match verified.attachAtLaunch with
      | (scope, .error e) => (⟨scope, l.launchedDescriptor, l.completed⟩, .error e)
      | (scope, .ok ()) => (⟨scope, some descriptor, l.completed⟩, .ok ())

def cleanup (w : Wait Time) : SyntheticAtomicLauncher × Except PyStr Unit :=
  if l.launchedDescriptor.isNone || l.completed then
    (l, .error (lit "atomic_launcher_cleanup_invalid"))
  else
    match l.scope.killAndWaitEmpty K w with
    | (scope, .error e) => (⟨scope, l.launchedDescriptor, l.completed⟩, .error e)
    | (scope, .ok ()) =>
      match scope.remove with
      | (scope, .error e) => (⟨scope, l.launchedDescriptor, l.completed⟩, .error e)
      | (scope, .ok ()) => (⟨scope, l.launchedDescriptor, true⟩, .ok ())

/-- A call on the scope itself. -/
def onScope (r : SyntheticCgroupV2Scope × Except PyStr Unit) :
    SyntheticAtomicLauncher × Except PyStr Unit :=
  (⟨r.1, l.launchedDescriptor, l.completed⟩, r.2)

end SyntheticAtomicLauncher

/-- A call on a scope that a launcher drives: attaching is the launcher's. -/
inductive ScopeCall (Time : Type)
  | configure
  | launch (fileno : Except PyStr Int)
  | cleanup (w : Wait Time)
  | killAndWaitEmpty (w : Wait Time)
  | remove

def SyntheticAtomicLauncher.call (l : SyntheticAtomicLauncher) :
    ScopeCall Time → SyntheticAtomicLauncher × Except PyStr Unit
  | .configure => l.onScope l.scope.configure
  | .launch fileno => l.launch fileno
  | .cleanup w => l.cleanup K w
  | .killAndWaitEmpty w => l.onScope (l.scope.killAndWaitEmpty K w)
  | .remove => l.onScope l.scope.remove

/-- A new scope with its launcher. -/
def newLauncher : SyntheticAtomicLauncher := ⟨⟨false, false, false, false, false, []⟩, none, false⟩

/-- After these calls, whether they raised or not. -/
def afterCalls (calls : List (ScopeCall Time)) : SyntheticAtomicLauncher :=
  calls.foldl (fun l c => (l.call K c).1) newLauncher

/-! ## What is asked of a run -/

/-- One more call removes the scope, and its events are then the whole protocol. -/
def SyntheticAtomicLauncher.Cleanable (l : SyntheticAtomicLauncher) : Prop :=
  ∃ c : ScopeCall Time, (l.call K c).2 = .ok () ∧ (l.call K c).1.scope.removed = true
    ∧ (l.call K c).1.scope.events = protocol

/-- Nothing is attached, the scope is gone, or one more call cleans it up. -/
def SyntheticAtomicLauncher.CanBeCleaned (l : SyntheticAtomicLauncher) : Prop :=
  l.scope.atomicallyAttached = false ∨ l.scope.removed = true ∨ l.Cleanable K

/-- The call kills, and sees the scope empty only after its deadline. -/
def SyntheticAtomicLauncher.misses (l : SyntheticAtomicLauncher) : ScopeCall Time → Bool
  | .cleanup w => l.launchedDescriptor.isSome && !l.completed && l.scope.atomicallyAttached
      && !l.scope.killed
      && !l.scope.removed && !K.nonpositive w.timeout && w.isLate K
  | .killAndWaitEmpty w => l.scope.atomicallyAttached && !l.scope.killed && !l.scope.removed
      && !K.nonpositive w.timeout && w.isLate K
  | _ => false

/-- No call of the run misses its deadline. -/
def InTime (calls : List (ScopeCall Time)) : Prop :=
  ∀ before c rest, calls = before ++ c :: rest → (afterCalls K before).misses K c = false

/-- The events are always the first ones of the protocol, the scope is removed after it was seen
empty, and a call that raises leaves it to be cleaned up. -/
def FollowsProtocol (calls : List (ScopeCall Time)) : Prop :=
  ∀ before rest, calls = before ++ rest →
    (afterCalls K before).scope.events <+: protocol
    ∧ ((afterCalls K before).scope.removed = true →
      .populatedZero ∈ (afterCalls K before).scope.events)
    ∧ ∀ c rest', rest = c :: rest' → ((afterCalls K before).call K c).2 ≠ .ok () →
      ((afterCalls K before).call K c).1.CanBeCleaned K

/-! ## Stages -/

/-- How far the two objects are. -/
inductive Stage
  | new
  | limited
  | running (descriptor : Int)
  | emptied (descriptor : Int)
  | removed (descriptor : Int) (completed : Bool)

/-- The objects at a stage. -/
def Stage.launcher : Stage → SyntheticAtomicLauncher
  | .new => newLauncher
  | .limited => ⟨⟨true, false, false, false, false, protocol.take 1⟩, none, false⟩
  | .running descriptor => ⟨⟨true, true, false, true, false, protocol.take 3⟩,
      some descriptor, false⟩
  | .emptied descriptor => ⟨⟨true, true, true, false, false, protocol.take 5⟩,
      some descriptor, false⟩
  | .removed descriptor completed =>
      ⟨⟨true, true, true, false, true, protocol⟩, some descriptor, completed⟩

theorem Stage.events_prefix (σ : Stage) : σ.launcher.scope.events <+: protocol := by
  cases σ with
  | new => exact List.nil_prefix
  | limited => exact List.take_prefix 1 protocol
  | running descriptor => exact List.take_prefix 3 protocol
  | emptied descriptor => exact List.take_prefix 5 protocol
  | removed descriptor completed => exact List.prefix_rfl

theorem Stage.populatedZero_mem (σ : Stage) (h : σ.launcher.scope.removed = true) :
    .populatedZero ∈ σ.launcher.scope.events := by
  cases σ with
  | removed descriptor completed => exact (by decide : ScopeEvent.populatedZero ∈ protocol)
  | new | limited | running | emptied => cases h

variable {K}

/-- A running scope is cleaned up by a prompt `cleanup`, an empty one by `remove`. -/
theorem Stage.canBeCleaned (σ : Stage) : σ.launcher.CanBeCleaned K := by
  cases σ with
  | new => exact .inl rfl
  | limited => exact .inl rfl
  | running descriptor =>
    obtain ⟨timeout, start, finish, hpositive, hprompt⟩ := K.exists_prompt
    have hcall : (Stage.running descriptor).launcher.call K (.cleanup ⟨timeout, start, finish⟩)
        = ((Stage.removed descriptor true).launcher, .ok ()) := by
      simp [Stage.launcher, SyntheticAtomicLauncher.call, SyntheticAtomicLauncher.cleanup,
        SyntheticCgroupV2Scope.killAndWaitEmpty, SyntheticCgroupV2Scope.remove, Wait.isLate,
          hpositive, hprompt,
        protocol]
    right; right
    refine ⟨.cleanup ⟨timeout, start, finish⟩, ?_⟩
    rw [hcall]
    exact ⟨rfl, rfl, rfl⟩
  | emptied descriptor => exact .inr (.inr ⟨.remove, rfl, rfl, rfl⟩)
  | removed descriptor completed => exact .inr (.inl rfl)

/-- What a wait on a running scope comes to. -/
theorem Stage.killAndWaitEmpty_running (descriptor : Int) (w : Wait Time) :
    (Stage.running descriptor).launcher.scope.killAndWaitEmpty K w
      = if K.nonpositive w.timeout then
      ((Stage.running descriptor).launcher.scope, .error (lit "cgroup_cleanup_invalid"))
        else if w.isLate K then
          (⟨true, true, true, false, false, protocol.take 4⟩,
            .error (lit "cgroup_not_empty_after_kill"))
        else ((Stage.emptied descriptor).launcher.scope, .ok ()) := by
  rfl

/-- A call in time leads to a stage. -/
theorem Stage.call_stage (σ : Stage) (c : ScopeCall Time) (h : σ.launcher.misses K c = false) :
    ∃ σ' : Stage, (σ.launcher.call K c).1 = σ'.launcher := by
  cases c with
  | configure =>
    cases σ with
    | new => exact ⟨.limited, rfl⟩
    | limited => exact ⟨.limited, rfl⟩
    | running descriptor => exact ⟨.running descriptor, rfl⟩
    | emptied descriptor => exact ⟨.emptied descriptor, rfl⟩
    | removed descriptor completed => exact ⟨.removed descriptor completed, rfl⟩
  | launch fileno =>
    cases σ with
    | new => exact ⟨.new, rfl⟩
    | limited =>
      cases fileno with
      | error e => exact ⟨.limited, rfl⟩
      | ok descriptor => exact ⟨.running descriptor, rfl⟩
    | running descriptor => exact ⟨.running descriptor, rfl⟩
    | emptied descriptor => exact ⟨.emptied descriptor, rfl⟩
    | removed descriptor completed => exact ⟨.removed descriptor completed, rfl⟩
  | cleanup w =>
    cases σ with
    | new => exact ⟨.new, rfl⟩
    | limited => exact ⟨.limited, rfl⟩
    | running descriptor =>
      have hmiss : (!K.nonpositive w.timeout && w.isLate K) = false := h
      show ∃ σ' : Stage, (SyntheticAtomicLauncher.cleanup K (Stage.running descriptor).launcher w).1
        = σ'.launcher
      unfold SyntheticAtomicLauncher.cleanup
      rw [if_neg (by simp [Stage.launcher]), Stage.killAndWaitEmpty_running]
      cases hpositive : K.nonpositive w.timeout with
      | true => exact ⟨.running descriptor, rfl⟩
      | false =>
        have hlate : w.isLate K = false := by simpa [hpositive] using hmiss
        rw [if_neg (by simp), hlate]
        exact ⟨.removed descriptor true, rfl⟩
    | emptied descriptor => exact ⟨.emptied descriptor, rfl⟩
    | removed descriptor completed =>
      cases completed with
      | true => exact ⟨.removed descriptor true, rfl⟩
      | false => exact ⟨.removed descriptor false, rfl⟩
  | killAndWaitEmpty w =>
    cases σ with
    | new => exact ⟨.new, rfl⟩
    | limited => exact ⟨.limited, rfl⟩
    | running descriptor =>
      have hmiss : (!K.nonpositive w.timeout && w.isLate K) = false := h
      show ∃ σ' : Stage, ((Stage.running descriptor).launcher.onScope
        ((Stage.running descriptor).launcher.scope.killAndWaitEmpty K w)).1 = σ'.launcher
      rw [Stage.killAndWaitEmpty_running]
      cases hpositive : K.nonpositive w.timeout with
      | true => exact ⟨.running descriptor, rfl⟩
      | false =>
        have hlate : w.isLate K = false := by simpa [hpositive] using hmiss
        rw [if_neg (by simp), hlate]
        exact ⟨.emptied descriptor, rfl⟩
    | emptied descriptor => exact ⟨.emptied descriptor, rfl⟩
    | removed descriptor completed => exact ⟨.removed descriptor completed, rfl⟩
  | remove =>
    cases σ with
    | new => exact ⟨.new, rfl⟩
    | limited => exact ⟨.limited, rfl⟩
    | running descriptor => exact ⟨.running descriptor, rfl⟩
    | emptied descriptor => exact ⟨.removed descriptor false, rfl⟩
    | removed descriptor completed => exact ⟨.removed descriptor completed, rfl⟩

/-- Every run in time is at a stage. -/
theorem calls_stage {calls : List (ScopeCall Time)} (h : InTime K calls) :
    ∃ σ : Stage, afterCalls K calls = σ.launcher := by
  induction calls using List.reverseRecOn with
  | nil => exact ⟨.new, rfl⟩
  | append_singleton calls c ih =>
    obtain ⟨σ, hσ⟩ := ih fun before c' rest heq => h before c' (rest ++ [c]) (by rw [heq]; simp)
    have hmiss : σ.launcher.misses K c = false := hσ ▸ h calls c [] rfl
    obtain ⟨σ', hσ'⟩ := σ.call_stage c hmiss
    refine ⟨σ', ?_⟩
    unfold afterCalls at hσ ⊢
    rw [List.foldl_append, hσ]
    exact hσ'

/-! ## A missed deadline -/

/-- Killed after its deadline: empty for the flags, but never seen so. -/
def unobserved (descriptor : Int) : SyntheticAtomicLauncher :=
  ⟨⟨true, true, true, false, false, protocol.take 4⟩, some descriptor, false⟩

/-- A call that misses its deadline raises and leaves the stages. -/
theorem Stage.call_late (σ : Stage) (c : ScopeCall Time) (h : σ.launcher.misses K c = true) :
    ∃ descriptor code, σ.launcher.call K c = (unobserved descriptor, .error code) := by
  cases c with
  | configure => cases h
  | launch fileno => cases h
  | remove => cases h
  | cleanup w =>
    cases σ with
    | running descriptor =>
      have hmiss : (!K.nonpositive w.timeout && w.isLate K) = true := h
      rw [Bool.and_eq_true, Bool.not_eq_true'] at hmiss
      refine ⟨descriptor, lit "cgroup_not_empty_after_kill", ?_⟩
      show SyntheticAtomicLauncher.cleanup K (Stage.running descriptor).launcher w = _
      unfold SyntheticAtomicLauncher.cleanup
      rw [if_neg (by simp [Stage.launcher]), Stage.killAndWaitEmpty_running, hmiss.1, hmiss.2]
      rfl
    | new | limited | emptied => cases h
    | removed descriptor completed => cases completed <;> cases h
  | killAndWaitEmpty w =>
    cases σ with
    | running descriptor =>
      have hmiss : (!K.nonpositive w.timeout && w.isLate K) = true := h
      rw [Bool.and_eq_true, Bool.not_eq_true'] at hmiss
      refine ⟨descriptor, lit "cgroup_not_empty_after_kill", ?_⟩
      show (Stage.running descriptor).launcher.onScope
        ((Stage.running descriptor).launcher.scope.killAndWaitEmpty K w) = _
      rw [Stage.killAndWaitEmpty_running, hmiss.1, hmiss.2]
      rfl
    | new | limited | emptied | removed => cases h

/-- From there every call raises, but `remove`, which skips an event. -/
theorem unobserved_not_cleanable (descriptor : Int) : ¬ (unobserved descriptor).CanBeCleaned K := by
  rintro (hattached | hremoved | ⟨c, hok, hgone, hevents⟩)
  · cases hattached
  · cases hremoved
  · cases c with
    | configure => cases hok
    | launch fileno => cases hok
    | cleanup w => cases hok
    | killAndWaitEmpty w => cases hok
    | remove =>
      exact absurd hevents (by decide : protocol.take 4 ++ [ScopeEvent.scopeRemoved] ≠ protocol)

/-- A run keeps to the protocol exactly when none of its kills misses its deadline. -/
theorem protocol_iff (K : Clock Time) (calls : List (ScopeCall Time)) :
    FollowsProtocol K calls ↔ InTime K calls := by
  constructor
  · intro h
    induction calls using List.reverseRecOn with
    | nil =>
      intro before c rest heq
      simp at heq
    | append_singleton calls c ih =>
      have hbefore : InTime K calls := by
        refine ih fun before rest heq => ?_
        obtain ⟨hevents, hremoved, hclean⟩ := h before (rest ++ [c])
          (by rw [heq, List.append_assoc])
        exact ⟨hevents, hremoved, fun c' rest' hrest =>
          hclean c' (rest' ++ [c]) (by rw [hrest]; rfl)⟩
      obtain ⟨σ, hσ⟩ := calls_stage hbefore
      have hlast : (afterCalls K calls).misses K c = false := by
        by_contra hmiss
        rw [Bool.not_eq_false, hσ] at hmiss
        obtain ⟨descriptor, code, hcall⟩ := σ.call_late c hmiss
        have hclean := (h calls [c] rfl).2.2 c [] rfl
        rw [hσ, hcall] at hclean
        exact unobserved_not_cleanable descriptor (hclean (by simp))
      intro before c' rest heq
      rcases List.eq_nil_or_concat' rest with rfl | ⟨rest', last, rfl⟩
      · obtain ⟨rfl, hc⟩ := List.append_inj' heq rfl
        obtain rfl : c = c' := by simpa using hc
        exact hlast
      · refine hbefore before c' rest' ?_
        rw [← List.cons_append, ← List.append_assoc] at heq
        exact (List.append_inj' heq rfl).1
  · intro h before rest heq
    have hbefore : InTime K before := fun before' c rest' heq' =>
      h before' c (rest' ++ rest) (by rw [heq, heq']; simp)
    obtain ⟨σ, hσ⟩ := calls_stage hbefore
    rw [hσ]
    refine ⟨σ.events_prefix, σ.populatedZero_mem, ?_⟩
    intro c rest' hrest _
    obtain ⟨σ', hσ'⟩ := σ.call_stage c (hσ ▸ h before c rest' (by rw [heq, hrest]))
    rw [hσ']
    exact σ'.canBeCleaned

/-- Whole nanoseconds. -/
def nanoseconds : Clock Int where
  add := (· + ·)
  nonpositive timeout := decide (timeout ≤ 0)
  later now deadline := decide (deadline < now)
  exists_prompt := ⟨1, 0, 0, rfl, rfl⟩

/-- A cleanup that misses its deadline raises; it cannot be repeated, and a later removal skips
`populated_zero`. -/
theorem late_kill_skips_populated_zero :
    (afterCalls nanoseconds [.configure, .launch (.ok 3), .cleanup ⟨1, 0, 2⟩, .cleanup ⟨1, 3, 3⟩,
      .remove]).scope.events
        = [.limitsConfigured, .runtimeFdVerified, .atomicallyAttached, .cgroupKill, .scopeRemoved]
      ∧ ¬ FollowsProtocol nanoseconds
        [.configure, .launch (.ok 3), .cleanup ⟨1, 0, 2⟩, .cleanup ⟨1, 3, 3⟩, .remove] := by
  refine ⟨rfl, fun h => ?_⟩
  have hevents := (h _ [] (List.append_nil _).symm).1
  exact absurd hevents (by decide)

end SddGov.Containment
