import SddGov.TrustedRunner.Approved

/-!
# What an execution leaves behind

Every run of `execute`, whatever is answered and wherever an exception leaves,
gives back what it has acquired: the descriptors of the child, the isolation
root, the lock of the approval with the file it is on, and the file of the approval. What
stays is what a call could not give back: above all, a lock that cannot be released leaves its
descriptor open (`execute_released`). Acquiring weighs one, and a call that gives back minus one,
or what it strands; each phase then weighs what its end still holds.
-/

namespace SddGov.TrustedRunner

open SddGov.Effect SddGov.Python SddGov.Governance

/-! ## Resources -/

inductive Resource
  | descriptor (d : Descriptor)
  | isolationRoot
  | lockFile
  | approvalLock
  | approvalFile
  deriving DecidableEq

/-- What a call acquires when it is answered well. -/
def acquired : RunnerOp → List Resource
  | .openOutput d => [.descriptor d]
  | .openPipe => [.descriptor .secretRead, .descriptor .secretWrite]
  | .makeIsolationRoot => [.isolationRoot]
  | .openLockFile => [.lockFile]
  | .lockApproval => [.approvalLock]
  | .createApproval => [.approvalFile]
  | _ => []

/-- What a call gives back when it is answered well. -/
def released : RunnerOp → List Resource
  | .close d => [.descriptor d]
  | .removeIsolationRoot => [.isolationRoot]
  | .unlockApproval => [.approvalLock]
  | .closeLockFile => [.lockFile]
  | .closeApproval => [.approvalFile]
  | _ => []

/-- What stays where a call fails to give back. The file of the lock is not closed after its
`LOCK_UN` has failed. -/
def stranded : RunnerOp → List Resource
  | .unlockApproval => [.approvalLock, .lockFile]
  | o => released o

/-- The answer is no exception. -/
def answeredWell : (o : RunnerOp) → localSig.Resp o → Bool
  | .openOutput _, answer => Except.isOk (α := Unit) (ε := OsError) answer
  | .openPipe, answer => Except.isOk (α := Unit) (ε := OsError) answer
  | .makeIsolationRoot, answer => Except.isOk (α := Unit) (ε := OsError) answer
  | .openLockFile, answer => Except.isOk (α := Unit) (ε := OsError) answer
  | .lockApproval, answer => Except.isOk (α := Unit) (ε := OsError) answer
  | .createApproval, answer => Except.isOk (α := Unit) (ε := OsError) answer
  | .close _, answer => Except.isOk (α := Unit) (ε := OsError) answer
  | .removeIsolationRoot, answer => Except.isOk (α := Unit) (ε := OsError) answer
  | .unlockApproval, answer => Except.isOk (α := Unit) (ε := OsError) answer
  | .closeLockFile, answer => Except.isOk (α := Unit) (ε := OsError) answer
  | .closeApproval, answer => Except.isOk (α := Unit) (ε := OsError) answer
  | _, _ => true

/-- What a call changes about the number of times `ρ` is held. -/
def weight (ρ : Resource) : Event runnerSig → Int
  | ⟨.inl _, _⟩ => 0
  | ⟨.inr o, answer⟩ => if answeredWell o answer then
      (acquired o).count ρ - (released o).count ρ else 0

/-- How often a call fails to give `ρ` back. -/
def stays (ρ : Resource) : Event runnerSig → Int
  | ⟨.inl _, _⟩ => 0
  | ⟨.inr o, answer⟩ => if answeredWell o answer then 0 else (stranded o).count ρ

/-- What is left to be given back, after each call. -/
def due (ρ : Resource) (e : Event runnerSig) : Int := weight ρ e - stays ρ e

/-- The call is not about `ρ`. -/
abbrev Apart (ρ : Resource) (o : runnerSig.Op) : Prop := ∀ answer, due ρ ⟨o, answer⟩ = 0

section Pieces

variable {ρ : Resource} {α : Type}

theorem balanced_of_apart {ε : Type} {p : Prog runnerSig ε α} (h : p.Calls (Apart ρ)) :
    Balanced (due ρ) p :=
  Weighs.of_calls h

theorem apart_host (o : hostSig.Op) : Apart ρ (.inl o) := fun _ => rfl

/-- Where nothing is given back, nothing can stay. -/
theorem stranded_nil {o : RunnerOp} (hr : released o = []) : stranded o = [] := by
  cases o with
  | unlockApproval => exact absurd hr (by simp [released])
  | _ => exact hr

theorem due_well {o : RunnerOp} {answer : localSig.Resp o} (hwell : answeredWell o answer = true) :
    due ρ ⟨.inr o, answer⟩ = (acquired o).count ρ - (released o).count ρ := by
  simp [due, weight, stays, hwell]

theorem due_failed {o : RunnerOp} {answer : localSig.Resp o}
    (hwell : answeredWell o answer = false) :
    due ρ ⟨.inr o, answer⟩ = -((stranded o).count ρ : Int) := by
  simp [due, weight, stays, hwell]

/-- A call without resources. -/
theorem apart_of_nil {o : RunnerOp} (ha : acquired o = []) (hr : released o = []) :
    Apart ρ (.inr o) := by
  intro answer
  cases hwell : answeredWell o answer with
  | true => simp [due_well hwell, ha, hr]
  | false => simp [due_failed hwell, stranded_nil hr]

/-- A call that acquires, answered well. -/
theorem due_acquires {o : RunnerOp} {answer : localSig.Resp o} {owned : List Resource}
    (ha : acquired o = owned)
    (hr : released o = []) (hwell : answeredWell o answer = true) :
    due ρ ⟨.inr o, answer⟩ = owned.count ρ := by
  simp [due_well hwell, ha, hr]

/-- A call that would have acquired. -/
theorem due_refused {o : RunnerOp} {answer : localSig.Resp o} (hr : released o = [])
    (hwell : answeredWell o answer = false) : due ρ ⟨.inr o, answer⟩ = 0 := by
  simp [due_failed hwell, stranded_nil hr]

/-- A call that gives back, or fails to. -/
theorem due_releases {o : RunnerOp} {answer : localSig.Resp o} {owned : List Resource}
    (ha : acquired o = [])
    (hr : released o = owned) (hs : stranded o = owned) :
    due ρ ⟨.inr o, answer⟩ = -(owned.count ρ : Int) := by
  cases hwell : answeredWell o answer with
  | true => simp [due_well hwell, ha, hr]
  | false => rw [due_failed hwell, hs]

/-- One call that acquires, or raises. -/
theorem acquire_weighs {ε : Type} {o : RunnerOp} {k : localSig.Resp o → Prog runnerSig ε α}
    {owned : List Resource}
    (ha : acquired o = owned) (hr : released o = [])
    (hk : ∀ answer, (answeredWell o answer = true ∧ ∃ a, k answer = .ret a)
      ∨ answeredWell o answer = false ∧ ∃ e, k answer = .raise e) :
    Weighs (due ρ) (byEnd (owned.count ρ) 0) (.call (.inr o) k) := by
  refine .call fun answer => ?_
  obtain ⟨hwell, a, hret⟩ | ⟨hwell, e, hraise⟩ := hk answer
  · rw [hret, due_acquires ha hr hwell]
    exact .ret (Int.sub_self _)
  · rw [hraise, due_refused hr hwell]
    exact .raise (Int.sub_self _)

/-- One call that gives back, and whose exception may be kept for later. -/
theorem release_weighs {ε : Type} {o : RunnerOp} {k : localSig.Resp o → Prog runnerSig ε α}
    {owned : List Resource}
    (ha : acquired o = []) (hr : released o = owned) (hs : stranded o = owned)
    (hk : ∀ answer, (∃ a, k answer = .ret a) ∨ ∃ e, k answer = .raise e) :
    Weighs (due ρ) (fun _ => -(owned.count ρ : Int)) (.call (.inr o) k) := by
  refine .call fun answer => ?_
  rw [due_releases ha hr hs]
  obtain ⟨a, hret⟩ | ⟨e, hraise⟩ := hk answer
  · rw [hret]
    exact .ret (Int.sub_self _)
  · rw [hraise]
    exact .raise (Int.sub_self _)

/-- How often `ρ` is among these. -/
def heldBy (ρ : Resource) (owned : List Descriptor) : Int := (owned.map Resource.descriptor).count ρ

/-! ## The child -/

/-- At the end of a program that owns descriptors. -/
def owns (ρ : Resource) (atEnd : List Descriptor) : Outcome (List Descriptor × RunFailure) α → Int
  | .ok _ => heldBy ρ atEnd
  | .error failure => heldBy ρ failure.1

/-- One more step with the descriptors it owns: what it opens is owned, and a failure closes what
was owned before. -/
theorem owning_step {β : Type} (after : List Descriptor) {before owned atEnd : List Descriptor}
    {p : RunnerProg α}
    {f : α → OwningProg β} (hp : Weighs (due ρ) (byEnd (heldBy ρ after - heldBy ρ before)
      (heldBy ρ owned - heldBy ρ before)) p)
    (hf : ∀ a, Weighs (due ρ) (fun x => owns ρ atEnd x - heldBy ρ after) (f a)) :
    Weighs (due ρ) (fun x => owns ρ atEnd x - heldBy ρ before)
    ((owning owned p).handle f .raise) := by
  have howning : Weighs (due ρ) (fun x => owns ρ after x - heldBy ρ before) (owning owned p) := by
    refine Weighs.handle hp (fun a => .ret ?_) fun e => .raise ?_
    · simp [owns, byEnd]
    · simp [owns, byEnd]
  refine Weighs.handle howning (fun a => (hf a).congr fun x => ?_) fun e => .raise ?_
  · simp only [owns]
    omega
  · simp [owns]

theorem openOutput_weighs (d : Descriptor) :
    Weighs (due ρ) (byEnd (heldBy ρ [d]) 0) (system (tell (.openOutput d))) := by
  refine acquire_weighs rfl rfl fun answer => ?_
  cases answer with
  | ok a => exact .inl ⟨rfl, a, rfl⟩
  | error e => exact .inr ⟨rfl, _, rfl⟩

theorem openPipe_weighs :
    Weighs (due ρ) (byEnd (heldBy ρ [.secretRead, .secretWrite]) 0) (system (tell .openPipe)) := by
  refine acquire_weighs rfl rfl fun answer => ?_
  cases answer with
  | ok a => exact .inl ⟨rfl, a, rfl⟩
  | error e => exact .inr ⟨rfl, _, rfl⟩

theorem due_close (d : Descriptor) (answer : Sys Unit) :
    due ρ ⟨.inr (.close d), answer⟩ = -heldBy ρ [d] :=
  due_releases rfl rfl rfl

theorem close_weighs (d : Descriptor) : Weighs (due ρ) (fun _ => -heldBy ρ [d]) (tell (.close d)) :=
  release_weighs rfl rfl rfl fun answer => .inl ⟨answer, rfl⟩

/-- Closing gives the descriptors back, also where a close fails. -/
theorem closeAll_weighs (owned : List Descriptor) :
    Weighs (due ρ) (fun _ => -heldBy ρ owned) (closeAll owned) := by
  induction owned with
  | nil => exact .ret rfl
  | cons d owned ih =>
    have hcons : heldBy ρ (d :: owned) = heldBy ρ [d] + heldBy ρ owned := by
      simp [heldBy, List.count_cons, Int.add_comm]
    refine .call fun answer => ?_
    have hclose := @due_close ρ d answer
    simp only [Prog.bind_eq, Prog.handle_ret, hclose]
    refine Weighs.handle ih (fun _ => .ret ?_) fun _ => .raise ?_
    · omega
    · omega

/-- A program without resources, while some are owned. -/
theorem owning_apart {β : Type} {owned atEnd : List Descriptor} {p : RunnerProg α}
    {f : α → OwningProg β}
    (hp : p.Calls (Apart ρ)) (hf : ∀ a, Weighs (due ρ)
      (fun x => owns ρ atEnd x - heldBy ρ owned) (f a)) :
    Weighs (due ρ) (fun x => owns ρ atEnd x - heldBy ρ owned)
    ((owning owned p).handle f .raise) := by
  refine owning_step owned ((balanced_of_apart hp).congr fun x => ?_) hf
  cases x <;> simp [byEnd]

/-- Launching hands over three pipes, or gives back what it has opened so far. -/
theorem launchChild_weighs (secret : Bytes) :
    Weighs (due ρ) (owns ρ [.stdout, .stderr, .secretRead]) (launchChild secret) := by
  have hstart : Weighs (due ρ) (fun x => owns ρ [.stdout, .stderr, .secretRead] x - heldBy ρ [])
    (launchChild secret) := by
    refine owning_step [.stdout] ((openOutput_weighs .stdout).congr fun x => ?_) fun _ => ?_
    · cases x <;> simp [byEnd, heldBy]
    refine owning_step [.stdout, .stderr] ((openOutput_weighs .stderr).congr fun x => ?_)
      fun _ => ?_
    · cases x <;> simp [byEnd, heldBy, List.count_cons]
    refine owning_step [.stdout, .stderr, .secretRead, .secretWrite]
      (openPipe_weighs.congr fun x => ?_) fun _ => ?_
    · cases x with
      | ok =>
        simp only [byEnd, heldBy, List.map_cons, List.map_nil, List.count_cons,
          List.count_nil]; omega
      | error e => simp [byEnd]
    refine owning_apart (feedPipe_calls (fun _ => apart_of_nil rfl rfl) _ _) fun _ => ?_
    refine owning_step [.stdout, .stderr, .secretRead]
      ((close_weighs .secretWrite).congr fun x => ?_) fun closed => ?_
    · cases x <;> simp only [byEnd, heldBy, List.map_cons, List.map_nil, List.count_cons,
        List.count_nil] <;> omega
    cases closed with
    | error e => exact .raise (Int.sub_self _)
    | ok =>
      refine owning_apart (calls_system (calls_tell (apart_of_nil rfl rfl))) fun _ => ?_
      refine Weighs.handle
        (balanced_of_apart (awaitChild_calls (fun _ => apart_of_nil rfl rfl) fun _ =>
        apart_of_nil rfl rfl)) (fun a => .ret ?_) fun e => .raise ?_
      · simp [owns]
      · simp [owns]
  exact hstart.congr fun x => by simp [heldBy]

/-- The child's descriptors are closed again. -/
theorem superviseChild_balanced (secret : Bytes) : Balanced (due ρ) (superviseChild secret) := by
  refine Weighs.handle (launchChild_weighs secret) (fun ended => ?_) fun failure => ?_
  · refine Weighs.handle (closeAll_weighs _) (fun closed => ?_) fun _ => .raise ?_
    · refine (Balanced.ite (.ret rfl) (.raise rfl)).congr fun x => ?_
      simp [owns]
    · simp [owns]
  · refine Weighs.handle (closeAll_weighs _) (fun closed => .raise ?_) fun _ => .raise ?_
    · simp [owns]
    · simp [owns]

/-! ## The approval -/

theorem openLockFile_weighs :
    Weighs (due ρ) (byEnd (([.lockFile] : List Resource).count ρ) 0)
    (lockCall (tell .openLockFile)) := by
  refine acquire_weighs rfl rfl fun answer => ?_
  cases answer with
  | ok a => exact .inl ⟨rfl, a, rfl⟩
  | error e => exact .inr ⟨rfl, _, rfl⟩

theorem lockApproval_weighs :
    Weighs (due ρ) (byEnd (([.approvalLock] : List Resource).count ρ) 0)
    (lockCall (tell .lockApproval)) := by
  refine acquire_weighs rfl rfl fun answer => ?_
  cases answer with
  | ok a => exact .inl ⟨rfl, a, rfl⟩
  | error e => exact .inr ⟨rfl, _, rfl⟩

theorem closeLockFile_weighs :
    Weighs (due ρ) (fun _ => -(([.lockFile] : List Resource).count ρ : Int))
    (system (tell .closeLockFile)) := by
  refine release_weighs rfl rfl rfl fun answer => ?_
  cases answer with
  | ok a => exact .inl ⟨a, rfl⟩
  | error e => exact .inr ⟨_, rfl⟩

/-- The lock and the file that it is on. -/
def lockHeld (ρ : Resource) : Int := ([.approvalLock, .lockFile] : List Resource).count ρ

theorem lockHeld_eq :
    lockHeld ρ = ([.approvalLock] : List Resource).count ρ
    + ([.lockFile] : List Resource).count ρ := by
  simp only [lockHeld, List.count_cons, List.count_nil]
  omega

/-- Taking the lock holds its file only if it succeeds. -/
theorem takeApprovalLock_weighs : Weighs (due ρ) (byEnd (lockHeld ρ) 0) takeApprovalLock := by
  have hopened : Weighs (due ρ) (byEnd (([.approvalLock] : List Resource).count ρ) 0)
    lockOpened := by
    refine .after (balanced_of_apart (calls_lockCall (calls_tell (apart_of_nil rfl rfl))))
      (fun _ => ?_) fun _ => rfl
    exact .after (balanced_of_apart (calls_checked _)) (fun _ => lockApproval_weighs) fun _ => rfl
  refine .after (balanced_of_apart (calls_stable (calls_tell (apart_of_nil rfl rfl)))) (fun _ => ?_)
    fun _ => rfl
  refine Weighs.handle openLockFile_weighs (fun _ => ?_) fun e => .raise (by simp [byEnd])
  refine Weighs.handle hopened (fun _ => .ret ?_) fun e => ?_
  · simp only [byEnd, lockHeld_eq]
    omega
  -- what was opened is closed again
  · refine Weighs.handle closeLockFile_weighs (fun _ => .raise ?_) fun _ => .raise ?_
    · simp [byEnd]
    · simp [byEnd]

/-- Releasing gives the file back or strands it. -/
theorem releaseApprovalLock_weighs : Weighs (due ρ) (fun _ => -lockHeld ρ) releaseApprovalLock := by
  refine .call fun answer => ?_
  cases answer with
  | ok =>
    refine closeLockFile_weighs.congr fun _ => ?_
    have hunlock : due ρ ⟨.inr .unlockApproval, .ok ()⟩
      = -(([.approvalLock] : List Resource).count ρ : Int) := by
      rw [due_well rfl]
      simp [acquired, released]
    rw [hunlock, lockHeld_eq]
    omega
  | error e =>
    have hstays : due ρ ⟨.inr .unlockApproval, .error e⟩ = -lockHeld ρ := due_failed rfl
    exact .raise (by rw [hstays, Int.sub_self])

theorem createApproval_weighs :
    Weighs (due ρ) (byEnd (([.approvalFile] : List Resource).count ρ) 0)
    (system (tell .createApproval)) := by
  refine acquire_weighs rfl rfl fun answer => ?_
  cases answer with
  | ok a => exact .inl ⟨rfl, a, rfl⟩
  | error e => exact .inr ⟨rfl, _, rfl⟩

theorem closeApproval_weighs :
    Weighs (due ρ) (fun _ => -(([.approvalFile] : List Resource).count ρ : Int))
    (system (tell .closeApproval)) := by
  refine release_weighs rfl rfl rfl fun answer => ?_
  cases answer with
  | ok a => exact .inl ⟨a, rfl⟩
  | error e => exact .inr ⟨_, rfl⟩

variable {C : Crypto} {r : Runner} {path : PyStr} {peerUid : Nat} {request : Members}
    {v : ValidatedRequest}

theorem checkAuthority_balanced : Balanced (due ρ) (checkAuthority v) :=
  balanced_of_apart (checkAuthority_calls (apart_of_nil rfl rfl))

theorem writeApproval_balanced : Balanced (due ρ) (writeApproval v) := by
  refine Balanced.bracket createApproval_weighs ?_ closeApproval_weighs
  split
  · exact balanced_of_apart (calls_system (calls_tell (apart_of_nil rfl rfl)))
  · exact balanced_of_apart (calls_checked _)

theorem consumeApproval_balanced : Balanced (due ρ) (consumeApproval C path v) := by
  refine Balanced.bracket takeApprovalLock_weighs ?_ releaseApprovalLock_weighs
  refine checkAuthority_balanced.bind fun authority => ?_
  refine (balanced_of_apart (checkFixedAuthority_calls apart_host authority)).bind fun _ => ?_
  refine writeApproval_balanced.bind fun _ => ?_
  refine (balanced_of_apart (Prog.Calls.tryFinally (useApproval_calls apart_host)
    (unlinkApproval_calls (apart_of_nil rfl rfl)))).bind fun result => ?_
  exact checkAuthority_balanced.bind fun _ => balanced_of_apart (calls_checked _)

/-! ## The run -/

/-- The isolation root is held where it has been made. -/
def isolationHeld (ρ : Resource) (s : Progress) : Int :=
  if s.isolated then ([.isolationRoot] : List Resource).count ρ else 0

/-- At the end of the phases. -/
def leaves (ρ : Resource) : Outcome (Progress × RunFailure) Progress → Int
  | .ok s => isolationHeld ρ s
  | .error failure => isolationHeld ρ failure.1

/-- At the end of one phase that began with `s` and acquires `n`. -/
def adds (ρ : Resource) (s : Progress) (n : Int) : Outcome (Progress × RunFailure) α → Int
  | .ok _ => n
  | .error failure => isolationHeld ρ failure.1 - isolationHeld ρ s

/-- One more phase while the root may be there. -/
theorem during_step {s : Progress} {n : Int} {p : RunnerProg α} {f : α → ProgressProg Progress}
    (hp : Weighs (due ρ) (byEnd n 0) p)
    (hf : ∀ a, Weighs (due ρ) (fun x => leaves ρ x - (isolationHeld ρ s + n)) (f a)) :
    Weighs (due ρ) (fun x => leaves ρ x - isolationHeld ρ s) ((during s p).handle f .raise) := by
  have hduring : Weighs (due ρ) (adds ρ s n) (during s p) := by
    refine Weighs.handle hp (fun a => .ret ?_) fun e => .raise ?_
    · simp [adds, byEnd]
    · simp [adds, byEnd]
  refine Weighs.handle hduring (fun a => (hf a).congr fun x => ?_) fun e => .raise ?_
  · simp only [adds]
    omega
  · simp [adds, leaves]

/-- A phase that gives back what it takes. -/
theorem during_balanced {s : Progress} {p : RunnerProg α} {f : α → ProgressProg Progress}
    (hp : Balanced (due ρ) p) (hf : ∀ a, Weighs (due ρ)
      (fun x => leaves ρ x - isolationHeld ρ s) (f a)) :
    Weighs (due ρ) (fun x => leaves ρ x - isolationHeld ρ s) ((during s p).handle f .raise) := by
  refine @during_step _ _ s 0 p f (hp.congr fun x => ?_) fun a => (hf a).congr fun x => ?_
  · cases x <;> rfl
  · simp

theorem makeIsolationRoot_weighs :
    Weighs (due ρ) (byEnd (([.isolationRoot] : List Resource).count ρ) 0)
    (system (tell .makeIsolationRoot)) := by
  refine acquire_weighs rfl rfl fun answer => ?_
  cases answer with
  | ok a => exact .inl ⟨rfl, a, rfl⟩
  | error e => exact .inr ⟨rfl, _, rfl⟩

theorem runChild_balanced (secret : Bytes) : Balanced (due ρ) (runChild C r v secret) := by
  have hnothing {o : RunnerOp} (ha : acquired o = []) (hr : released o = []) :
    (tell o).Calls (Apart ρ) :=
    calls_tell (apart_of_nil ha hr)
  refine (balanced_of_apart (calls_system (hnothing rfl rfl))).bind fun _ => ?_
  refine (balanced_of_apart (calls_system (hnothing rfl rfl))).bind fun _ => ?_
  refine (balanced_of_apart (calls_system (hnothing rfl rfl))).bind fun _ => ?_
  refine (superviseChild_balanced secret).bind fun ended => ?_
  exact balanced_of_apart (observe_calls (fun _ => apart_of_nil rfl rfl)
    (apart_of_nil rfl rfl) ended)

/-- The phases leave what their progress says. -/
theorem runPhases_weighs : Weighs (due ρ) (leaves ρ) (runPhases C r path peerUid request) := by
  have hstart : Weighs (due ρ) (fun x => leaves ρ x - isolationHeld ρ {})
    (runPhases C r path peerUid request) := by
    refine during_balanced (balanced_of_apart (admitRequest_calls (apart_of_nil rfl rfl)))
      fun v => ?_
    have hnothing {o : RunnerOp} (ha : acquired o = []) (hr : released o = []) :
      (tell o).Calls (Apart ρ) :=
      calls_tell (apart_of_nil ha hr)
    refine during_balanced (balanced_of_apart (calls_stable (hnothing rfl rfl))) fun _ => ?_
    refine during_balanced consumeApproval_balanced fun _ => ?_
    refine during_balanced (balanced_of_apart (calls_stable (hnothing rfl rfl))) fun _ => ?_
    refine during_balanced (balanced_of_apart (calls_stable (hnothing rfl rfl))) fun _ => ?_
    refine during_balanced (balanced_of_apart (openCredential_calls (apart_of_nil rfl rfl)))
      fun secret => ?_
    refine during_step makeIsolationRoot_weighs fun _ => ?_
    refine Weighs.congr (during_balanced (balanced_of_apart (calls_system (hnothing rfl rfl)))
      fun _ => ?_) fun x => ?_
    · refine during_balanced (runChild_balanced secret) fun seen => .ret ?_
      simp [leaves, isolationHeld]
    · simp [isolationHeld]
  exact hstart.congr fun x => by simp [isolationHeld]

/-- Removing the root gives it back or leaves it as due. -/
theorem removeIsolation_weighs (s : Progress) :
    Weighs (due ρ) (fun _ => -isolationHeld ρ s) (removeIsolation s) := by
  unfold removeIsolation
  split
  · next hisolated =>
    have hweight (answer : Sys Unit) : due ρ ⟨.inr .removeIsolationRoot, answer⟩
      = -isolationHeld ρ s := by
      rw [isolationHeld, if_pos hisolated]
      exact due_releases rfl rfl rfl
    have hexists : Balanced (due ρ) (system (tell .isolationRootExists)) :=
      balanced_of_apart (calls_system (calls_tell (apart_of_nil rfl rfl)))
    refine .call fun answer => ?_
    simp only [Prog.bind_eq, Prog.handle_ret, hweight]
    cases answer with
    | error e => exact .ret (by simp)
    | ok => exact (hexists.bind fun _ => .ret rfl).congr fun _ => (Int.sub_self _).symm
  · next hisolated => exact .ret (by simp [isolationHeld, hisolated])

/-- A whole run gives back all that is due. -/
theorem execute_balanced : Balanced (due ρ) (execute C r path peerUid request) := by
  have hphases : Weighs (due ρ) (fun x => (x.toOption.map (isolationHeld ρ)).getD 0)
      ((runPhases C r path peerUid request).handle .ret
        fun failure => (.ret (failure.1.failed failure.2) : RunnerProg Progress)) := by
    refine Weighs.handle runPhases_weighs (fun s => .ret ?_) fun failure => .ret ?_
    · simp [leaves, Except.toOption]
    · simp [leaves, Except.toOption, Progress.failed, isolationHeld]
  refine Weighs.handle hphases (fun s => ?_) fun e => .raise ?_
  · have hclean : Weighs (due ρ) (fun _ => -isolationHeld ρ s) (cleanUp s) := by
      refine Weighs.handle (removeIsolation_weighs s) (fun _ => ?_) fun e => .raise ?_
      · exact (Balanced.ite (.ret rfl) (.ret rfl)).congr fun _ => (Int.sub_self _).symm
      · simp
    refine Weighs.handle hclean (fun result => ?_) fun e => .raise ?_
    · refine (balanced_of_apart (signRun_calls (fun _ => apart_of_nil rfl rfl) result)).congr
        fun x => ?_
      simp [Except.toOption]
    · simp [Except.toOption]
  · simp [Except.toOption]

/-- **Everything acquired is given back.** In every run of an execution, whatever the calls answer
and wherever an exception leaves a phase, each resource is held as often at the end as calls have
failed to give it back: a descriptor that could not be closed, a root that could not be removed, and
with a lock that could not be released the descriptor it is on. -/
theorem execute_released (C : Crypto) (r : Runner) (path : PyStr) (peerUid : Nat)
    (request : Members) (ρ : Resource) :
    Ensures (fun t _ => total (weight ρ) t = total (stays ρ) t) []
    (execute C r path peerUid request) := by
  refine ensures_of_runs fun t x h => ?_
  have hdue : total (due ρ) t = 0 := execute_balanced t x h
  have hsub := total_sub (weight ρ) (stays ρ) t
  unfold due at hdue
  rw [List.nil_append]
  omega

end Pieces

end SddGov.TrustedRunner
