import SddGov.TrustedRunner.Released

/-!
# What a signed result says

The flags of a result are the ones that were set before an exception left the
run, so each of them has to hold of the calls made until then (`Tracked`). The
result that is signed adds what the cleaning up has seen (`execute_honest`).
A child that was started may go unreported, but only in a result that is not
completed.
-/

namespace SddGov.TrustedRunner

open SddGov.Effect SddGov.Python SddGov.Governance

section Flags

variable {C : Crypto} {r : Runner} {path : PyStr} {peerUid : Nat} {request : Members}
    {v : ValidatedRequest}
variable {t t' : List (Event runnerSig)}

/-! ## The calls that flags are about -/

/-- What `_open_credential` accepts. -/
structure IsCredential (C : Crypto) (r : Runner) (raw : Bytes) : Prop where
  hash : (sha256Text C raw == r.credentialSha256) = true
  shape : (20 ≤ raw.length && raw.take 3 == [byte 0x73, byte 0x6B, byte 0x2D]
    && raw.all fun b => 33 ≤ b.val && b.val ≤ 126) = true

/-- The credential was read, and it was the right one. -/
def Opened (C : Crypto) (r : Runner) (t : List (Event runnerSig)) : Prop :=
  ∃ raw, (⟨.inr .readCredential, .ok raw⟩ : Event runnerSig) ∈ t ∧ IsCredential C r raw

/-- An isolation root was made. -/
def Isolated (t : List (Event runnerSig)) : Prop :=
    (⟨.inr .makeIsolationRoot, .ok ()⟩ : Event runnerSig) ∈ t

/-- A child was started. -/
def Started (t : List (Event runnerSig)) : Prop :=
    (⟨.inr .startChild, .ok ()⟩ : Event runnerSig) ∈ t

/-- The child was started, ended with status 0 within its time, and its result was read after that:
it says that the child completed, and the observation has its numbers. -/
structure Finished (r : Runner) (t : List (Event runnerSig)) (seen : Observation) : Prop where
  timedOut : seen.timedOut = false
  returnCode : seen.returnCode = 0
  reported : ∃ raw result,
    [⟨.inr .startChild, .ok ()⟩, ⟨.inr (.wait maxDurationSeconds), .ok (.exited 0)⟩,
      (⟨.inr (.readArtifact .result), .ok raw⟩ : Event runnerSig)].Sublist t
    ∧ childResult r.toBootstrap raw = .ok result ∧ result.outcome = lit "completed"
    ∧ seen.childOutcome = result.outcome ∧ seen.inferenceApplied = result.inferenceApplied
    ∧ seen.inputTokens = result.inputTokens ∧ seen.outputTokens = result.outputTokens
      ∧ seen.cost = result.cost

theorem Finished.within {seen : Observation} (h : Finished r t seen)
    (before after : List (Event runnerSig)) :
    Finished r (before ++ t ++ after) seen := by
  obtain ⟨raw, result, hcalls, hresult⟩ := h.reported
  refine ⟨h.timedOut, h.returnCode, raw, result, ?_, hresult⟩
  exact List.sublist_append_of_sublist_left (List.sublist_append_of_sublist_right hcalls)

/-- Neither the credential nor the isolation root. -/
def isQuiet : runnerSig.Op → Bool
  | .inr .readCredential => false
  | .inr .makeIsolationRoot => false
  | _ => true

theorem opened_append : Opened C r (t ++ t') ↔ Opened C r t ∨ Opened C r t' := by
  unfold Opened
  constructor
  · rintro ⟨raw, hmem, hraw⟩
    rcases List.mem_append.mp hmem with hmem | hmem
    · exact .inl ⟨raw, hmem, hraw⟩
    · exact .inr ⟨raw, hmem, hraw⟩
  · rintro (⟨raw, hmem, hraw⟩ | ⟨raw, hmem, hraw⟩)
    · exact ⟨raw, List.mem_append_left _ hmem, hraw⟩
    · exact ⟨raw, List.mem_append_right _ hmem, hraw⟩

/-- A trace of other calls. -/
def Quiet (t : List (Event runnerSig)) : Prop := ∀ e ∈ t, isQuiet e.1 = true

theorem Quiet.not_opened (h : Quiet t) : ¬ Opened C r t := by
  rintro ⟨raw, hmem, -⟩
  exact Bool.false_ne_true (h _ hmem)

theorem Quiet.not_isolated (h : Quiet t) : ¬ Isolated t := by
  intro hmem
  exact Bool.false_ne_true (h _ hmem)

theorem quiet_of_calls {ε α : Type} {p : Prog runnerSig ε α} {x : Outcome ε α}
    (hp : p.Calls fun o => isQuiet o = true) (h : Runs p t x) : Quiet t :=
  hp.runs h

/-! ## The progress -/

/-- What holds of the progress after these calls. -/
structure Tracked (C : Crypto) (r : Runner) (peerUid : Nat) (request : Members)
    (t : List (Event runnerSig))
    (s : Progress) : Prop where
  approval : s.result.approvalConsumed = true → ∃ v o, Admitted C r peerUid request v
    ∧ s.result.operationId = some v.operationId ∧ s.result.planHash = some v.planHash
    ∧ v.Approved C o (leftEvents t)
  credential : s.result.credentialMaterialOpened = true ↔ Opened C r t
  isolated : s.isolated = true ↔ Isolated t
  runtime : s.result.runtimeStarted = true → Started t
  opened : s.result.runtimeStarted = true → s.result.credentialMaterialOpened = true
  consumed : s.result.credentialMaterialOpened = true → s.result.approvalConsumed = true
  completed : s.result.completed = true → s.result.runtimeStarted = true
    ∧ ∃ seen, s.result.observation = some seen ∧ Finished r t seen

/-- A run that is completed stays so. -/
theorem Tracked.finished {s : Progress} (h : Tracked C r peerUid request t s)
    (hdone : s.result.completed = true) :
    s.result.runtimeStarted = true ∧ ∃ seen, s.result.observation = some seen
    ∧ Finished r (t ++ t') seen := by
  obtain ⟨hruntime, seen, hseen, hfinished⟩ := h.completed hdone
  exact ⟨hruntime, seen, hseen, by simpa using hfinished.within [] t'⟩

/-- What an exception leaves of the progress. -/
theorem Tracked.failed {s : Progress} {e : RunFailure} (h : Tracked C r peerUid request t s) :
    Tracked C r peerUid request t (s.failed e) :=
  ⟨h.approval, h.credential, h.isolated, h.runtime, h.opened, h.consumed, h.completed⟩

/-- Calls that open nothing and isolate nothing. -/
theorem Tracked.extend {s : Progress} (h : Tracked C r peerUid request t s) (ho : ¬ Opened C r t')
    (hi : ¬ Isolated t') : Tracked C r peerUid request (t ++ t') s := by
  refine ⟨fun happroval => ?_, ?_, ?_, fun hruntime =>
    List.mem_append_left _ (h.runtime hruntime), h.opened,
    h.consumed, fun hdone => h.finished hdone⟩
  · obtain ⟨v, o, hadmitted, hid, hhash, happroved⟩ := h.approval happroval
    exact ⟨v, o, hadmitted, hid, hhash, @ValidatedRequest.Approved.within C v o [] t t' happroved⟩
  · rw [h.credential, opened_append]
    simp [ho]
  · rw [h.isolated]
    unfold Isolated
    rw [List.mem_append]
    exact (or_iff_left hi).symm

theorem Tracked.quiet {s : Progress} (h : Tracked C r peerUid request t s) (hquiet : Quiet t') :
    Tracked C r peerUid request (t ++ t') s :=
  h.extend hquiet.not_opened hquiet.not_isolated

/-- Before the approval is consumed. -/
theorem tracked_of_quiet {s : Progress} (ha : s.result.approvalConsumed = false)
    (hc : s.result.credentialMaterialOpened = false) (hr : s.result.runtimeStarted = false)
    (hf : s.result.completed = false) (hi : s.isolated = false) (hquiet : Quiet t) :
    Tracked C r peerUid request t s := by
  refine ⟨?_, ?_, ?_, ?_, ?_, ?_, ?_⟩
  · simp [ha]
  · simp [hc, hquiet.not_opened]
  · simp [hi, hquiet.not_isolated]
  · simp [hr]
  · simp [hr]
  · simp [hc]
  · simp [hf]

theorem Quiet.append (h : Quiet t) (h' : Quiet t') : Quiet (t ++ t') := by
  intro e he
  rcases List.mem_append.mp he with he | he
  · exact h e he
  · exact h' e he

/-- The credential is opened where it was read and is the right one. -/
theorem openCredential_tracked {y : Outcome RunFailure Bytes} (h : Runs (openCredential C r) t y) :
    (y.isOk = true ↔ Opened C r t) ∧ ¬ Isolated t := by
  obtain ⟨t₁, t₂, x, rfl, h₁, h₂⟩ := runs_handle h
  obtain ⟨t₃, t₄, z, rfl, h₃, h₄⟩ := runs_handle h₁
  obtain ⟨answer, rfl, rfl⟩ := runs_tell h₃
  -- the checks make no calls, so the reading is the only event
  have hread {raw : Bytes} : Opened C r [⟨.inr .readCredential, .ok raw⟩] ↔
    IsCredential C r raw := by
    unfold Opened
    simp
  cases answer with
  | error e =>
    obtain ⟨rfl, rfl⟩ := runs_raise h₄
    obtain ⟨rfl, rfl⟩ := runs_raise h₂
    simp [Opened, Isolated, Except.isOk, Except.toBool]
  | ok raw =>
    obtain ⟨rfl, rfl⟩ := runs_ret h₄
    rcases runs_check h₂ with ⟨hhash, h₂⟩ | ⟨hhash, rfl, e, rfl⟩
    · rcases runs_check h₂ with ⟨hshape, h₂⟩ | ⟨hshape, rfl, e, rfl⟩
      · obtain ⟨rfl, rfl⟩ := runs_ret h₂
        simp [hread, Isolated, Except.isOk, Except.toBool, IsCredential.mk hhash hshape]
      · have hnot : ¬ IsCredential C r raw := fun hraw =>
          Bool.false_ne_true (hshape.symm.trans hraw.shape)
        simp [hread, Isolated, Except.isOk, Except.toBool, hnot]
    · have hnot : ¬ IsCredential C r raw := fun hraw =>
        Bool.false_ne_true (hhash.symm.trans hraw.hash)
      simp [hread, Isolated, Except.isOk, Except.toBool, hnot]

theorem runs_owning {α : Type} {owned : List Descriptor} {p : RunnerProg α} {a : α}
    (h : Runs (owning owned p) t (.ok a)) : Runs p t (.ok a) := by
  obtain ⟨t₁, t₂, y, rfl, h₁, h₂⟩ := runs_handle h
  cases y with
  | error e => exact absurd (runs_raise h₂).2 (by simp)
  | ok b =>
    obtain ⟨rfl, hb⟩ := runs_ret h₂
    obtain rfl := Except.ok.inj hb
    rw [List.append_nil]
    exact h₁

/-- A child that is not timed out has ended in the first wait. -/
theorem awaitChild_ok {ended : Bool × Int} (h : Runs awaitChild t (.ok ended))
    (hended : ended.1 = false) :
    (⟨.inr (.wait maxDurationSeconds), .ok (.exited ended.2)⟩ : Event runnerSig) ∈ t := by
  obtain ⟨t₁, t₂, first, rfl, hwait, hrest⟩ := runs_bind h
  obtain ⟨answer, rfl, hanswer⟩ := runs_tell (runs_system hwait)
  obtain rfl := Except.ok.inj hanswer
  cases first with
  | exited code =>
    obtain ⟨rfl, hpair⟩ := runs_ret hrest
    obtain rfl := Except.ok.inj hpair
    simp
  | timedOut =>
    -- every other end says that the time was over
    obtain ⟨t₃, t₄, _, rfl, -, hrest⟩ := runs_bind hrest
    obtain ⟨t₅, t₆, second, rfl, -, hrest⟩ := runs_bind hrest
    cases second with
    | exited code =>
      obtain rfl := Except.ok.inj (runs_ret hrest).2
      exact absurd hended (by simp)
    | timedOut =>
      obtain ⟨t₇, t₈, _, rfl, -, hrest⟩ := runs_bind hrest
      obtain ⟨t₉, t₁₀, third, rfl, -, hrest⟩ := runs_bind hrest
      cases third with
      | exited code =>
        obtain rfl := Except.ok.inj (runs_ret hrest).2
        exact absurd hended (by simp)
      | timedOut => exact absurd (runs_raise hrest).2 (by simp)

/-- A child that has been launched was started, and waited for after that. -/
structure Launched (ended : Bool × Int) (t : List (Event runnerSig)) : Prop where
  started : Started t
  inTime : ended.1 = false →
    [⟨.inr .startChild, .ok ()⟩,
      (⟨.inr (.wait maxDurationSeconds), .ok (.exited ended.2)⟩ : Event runnerSig)].Sublist t

theorem Launched.within {ended : Bool × Int} (h : Launched ended t)
    (before after : List (Event runnerSig)) :
    Launched ended (before ++ t ++ after) := by
  refine ⟨List.mem_append_left _ (List.mem_append_right _ h.started), fun hended => ?_⟩
  exact List.sublist_append_of_sublist_left (List.sublist_append_of_sublist_right (h.inTime hended))

/-- A child that is launched was started and waited for. -/
theorem launchChild_ok {secret : Bytes} {ended : Bool × Int}
    (h : Runs (launchChild secret) t (.ok ended)) :
    Launched ended t := by
  obtain ⟨t₁, t₂, _, rfl, -, h⟩ := runs_bind h
  obtain ⟨t₃, t₄, _, rfl, -, h⟩ := runs_bind h
  obtain ⟨t₅, t₆, _, rfl, -, h⟩ := runs_bind h
  obtain ⟨t₇, t₈, _, rfl, -, h⟩ := runs_bind h
  obtain ⟨t₉, t₁₀, closed, rfl, -, h⟩ := runs_bind h
  cases closed with
  | error e => exact absurd (runs_raise h).2 (by simp)
  | ok =>
    obtain ⟨t₁₁, t₁₂, _, rfl, hstart, hawait⟩ := runs_bind h
    obtain ⟨answer, rfl, hanswer⟩ := runs_tell (runs_system (runs_owning hstart))
    obtain rfl := Except.ok.inj hanswer
    have hlaunched : Launched ended ([⟨.inr .startChild, .ok ()⟩] ++ t₁₂) := by
      refine ⟨List.mem_append_left _ (List.mem_singleton.mpr rfl), fun hended => ?_⟩
      have hwait := awaitChild_ok (runs_owning hawait) hended
      exact (List.singleton_sublist.mpr hwait).cons_cons _
    simpa using hlaunched.within (t₁ ++ t₃ ++ t₅ ++ t₇ ++ t₉) []

/-- The same with what stops the child when it takes too long. -/
theorem superviseChild_ok {secret : Bytes} {ended : Bool × Int}
    (h : Runs (superviseChild secret) t (.ok ended)) :
    Launched ended t := by
  obtain ⟨t₁, t₂, y, rfl, h₁, h₂⟩ := runs_handle h
  cases y with
  | ok launched =>
    obtain ⟨t₃, t₄, closed, rfl, -, h₂⟩ := runs_bind h₂
    split at h₂
    · obtain rfl := Except.ok.inj (runs_ret h₂).2
      simpa using (launchChild_ok h₁).within [] (t₃ ++ t₄)
    · exact absurd (runs_raise h₂).2 (by simp)
  | error failure =>
    obtain ⟨_, _, _, -, -, hraise⟩ := runs_bind h₂
    exact absurd (runs_raise hraise).2 (by simp)

theorem runs_readArtifact {a : Artifact} {raw : Bytes}
    (h : Runs (stable (tell (.readArtifact a))) t (.ok raw)) :
    (⟨.inr (.readArtifact a), .ok raw⟩ : Event runnerSig) ∈ t := by
  obtain ⟨t₁, t₂, y, rfl, h₁, h₂⟩ := runs_handle h
  obtain ⟨answer, rfl, rfl⟩ := runs_tell h₁
  obtain ⟨-, rfl⟩ := runs_checked h₂
  exact List.mem_append_left _ (List.mem_singleton.mpr rfl)

/-- The observation has the end of the child as it was, and with status 0 in time also its
result. -/
theorem observe_ok {ended : Bool × Int} {seen : Observation}
    (h : Runs (observe C r ended) t (.ok seen)) :
    seen.timedOut = ended.1 ∧ seen.returnCode = ended.2
      ∧ (ended = (false, 0) → ∃ raw result,
        (⟨.inr (.readArtifact .result), .ok raw⟩ : Event runnerSig) ∈ t
        ∧ childResult r.toBootstrap raw = .ok result ∧ seen.childOutcome = result.outcome
        ∧ seen.inferenceApplied = result.inferenceApplied ∧ seen.inputTokens = result.inputTokens
        ∧ seen.outputTokens = result.outputTokens ∧ seen.cost = result.cost) := by
  obtain ⟨t₁, t₂, stdout, rfl, -, h⟩ := runs_bind h
  obtain ⟨t₃, t₄, stderr, rfl, -, h⟩ := runs_bind h
  obtain ⟨t₅, t₆, durationMs, rfl, -, h⟩ := runs_bind h
  dsimp only at h
  split at h
  · next hfailed =>
    obtain rfl := Except.ok.inj (runs_ret h).2
    refine ⟨rfl, rfl, ?_⟩
    rintro rfl
    exact absurd hfailed (by simp)
  · obtain ⟨t₇, t₈, raw, rfl, hread, h⟩ := runs_bind h
    obtain ⟨t₉, t₁₀, result, rfl, hresult, h⟩ := runs_bind h
    obtain rfl := Except.ok.inj (runs_ret h).2
    refine ⟨rfl, rfl, fun _ => ⟨raw, result, ?_, (runs_checked hresult).2, rfl, rfl, rfl, rfl, rfl⟩⟩
    have hmem := runs_readArtifact hread
    simp only [List.mem_append]
    exact .inr (.inr (.inr (.inl hmem)))

/-- What the observation of a child says has happened. -/
structure Ran (r : Runner) (t : List (Event runnerSig)) (seen : Observation) : Prop where
  started : Started t
  finished : seen.timedOut = false → seen.returnCode = 0 → seen.childOutcome = lit "completed" →
    Finished r t seen

theorem Ran.after {seen : Observation} (h : Ran r t seen) (before : List (Event runnerSig)) :
    Ran r (before ++ t) seen := by
  refine ⟨List.mem_append_right _ h.started, fun htimed hcode houtcome => ?_⟩
  simpa using (h.finished htimed hcode houtcome).within before []

/-- What was observed of a run is what its calls answered. -/
theorem runChild_ran {secret : Bytes} {seen : Observation}
    (h : Runs (runChild C r v secret) t (.ok seen)) :
    Ran r t seen := by
  obtain ⟨t₁, t₂, _, rfl, -, h⟩ := runs_bind h
  obtain ⟨t₃, t₄, _, rfl, -, h⟩ := runs_bind h
  obtain ⟨t₅, t₆, _, rfl, -, h⟩ := runs_bind h
  obtain ⟨t₇, t₈, ended, rfl, hchild, hobserve⟩ := runs_bind h
  have hlaunched := superviseChild_ok hchild
  obtain ⟨htimed, hcode, hreport⟩ := observe_ok hobserve
  have hran : Ran r (t₇ ++ t₈) seen := by
    refine ⟨List.mem_append_left _ hlaunched.started, fun hin hzero houtcome => ?_⟩
    have hended : ended = (false, 0) := Prod.ext (htimed.symm.trans hin) (hcode.symm.trans hzero)
    obtain ⟨raw, result, hread, hresult, hseen⟩ := hreport hended
    have hcalls := (hlaunched.inTime (htimed.symm.trans hin)).append
      (List.singleton_sublist.mpr hread)
    rw [hended] at hcalls
    exact ⟨hin, hzero, raw, result, hcalls, hresult, hseen.1.symm.trans houtcome, hseen⟩
  simpa using hran.after (t₁ ++ t₃ ++ t₅)

theorem consumeApproval_quiet {y : Outcome RunFailure Unit}
    (h : Runs (consumeApproval C path v) t y) : Quiet t := by
  refine quiet_of_calls (consumeApproval_calls.mono fun o ho => ?_) h
  rcases o with o | o
  · rfl
  · cases o with
    | readCredential => exact absurd rfl ho
    | makeIsolationRoot => exact absurd rfl ho
    | _ => rfl

/-- The calls about the child are quiet. -/
theorem runChild_quiet {secret : Bytes} {y : Outcome RunFailure Observation}
    (h : Runs (runChild C r v secret) t y) : Quiet t := by
  have hone {o : RunnerOp} (ho : isQuiet (.inr o) = true) : (tell o).Calls (isQuiet · = true) :=
    calls_tell ho
  have hclose (owned : List Descriptor) : (closeAll owned).Calls (isQuiet · = true) :=
    closeAll_calls (fun _ => rfl) owned
  have hlaunch : (launchChild secret).Calls (isQuiet · = true) := by
    refine (calls_owning (calls_system (hone rfl))).bind fun _ => ?_
    refine (calls_owning (calls_system (hone rfl))).bind fun _ => ?_
    refine (calls_owning (calls_system (hone rfl))).bind fun _ => ?_
    refine (calls_owning (feedPipe_calls (fun _ => rfl) _ _)).bind fun _ => ?_
    refine (calls_owning (hone rfl)).bind fun closed => ?_
    cases closed with
    | error e => trivial
    | ok =>
      refine (calls_owning (calls_system (hone rfl))).bind fun _ => ?_
      exact calls_owning (awaitChild_calls (fun _ => rfl) fun _ => rfl)
  refine quiet_of_calls ?_ h
  refine (calls_system (hone rfl)).bind fun _ => (calls_system (hone rfl)).bind fun _ => ?_
  refine (calls_system (hone rfl)).bind fun _ =>
    Prog.Calls.bind ?_ (observe_calls (fun _ => rfl) rfl)
  refine hlaunch.handle (fun _ => ?_) fun _ => ?_
  · exact (hclose _).bind fun _ => Prog.Calls.ite trivial trivial
  · exact (hclose _).bind fun _ => trivial

/-- What concluding changes. -/
theorem concluded_flags (result : RunnerResult) (seen : Observation) :
    (result.concluded seen).runtimeStarted = true ∧ (result.concluded seen).observation = some seen
      ∧ (result.concluded seen).approvalConsumed = result.approvalConsumed
      ∧ (result.concluded seen).credentialMaterialOpened = result.credentialMaterialOpened
      ∧ (result.concluded seen).operationId = result.operationId
      ∧ (result.concluded seen).planHash = result.planHash := by
  unfold RunnerResult.concluded
  dsimp only
  split
  · exact ⟨rfl, rfl, rfl, rfl, rfl, rfl⟩
  · split
    · exact ⟨rfl, rfl, rfl, rfl, rfl, rfl⟩
    · split
      · exact ⟨rfl, rfl, rfl, rfl, rfl, rfl⟩
      · exact ⟨rfl, rfl, rfl, rfl, rfl, rfl⟩

/-- A result that says completed was concluded from an observation that does. -/
theorem concluded_completed {result : RunnerResult} {seen : Observation}
    (h₀ : result.completed = false)
    (h : (result.concluded seen).completed = true) :
    seen.timedOut = false ∧ seen.returnCode = 0 ∧ seen.childOutcome = lit "completed" := by
  unfold RunnerResult.concluded at h
  dsimp only at h
  split at h
  · exact absurd h (by simp [h₀])
  · next htimed =>
    split at h
    · exact absurd h (by simp [h₀])
    · next hcode =>
      split at h
      · exact absurd h (by simp [h₀])
      · next houtcome =>
          exact ⟨by simpa using htimed, by simpa using hcode, by simpa using houtcome⟩

/-- The progress once the approval is consumed. -/
def consumedBy (v : ValidatedRequest) : Progress :=
  { result := {
    operationId := some v.operationId, planHash := some v.planHash, approvalConsumed := true } }

theorem tracked_consumed {o : Autonomy.VerifiedOperation} (hv : Admitted C r peerUid request v)
    (ho : v.Approved C o (leftEvents t)) (hquiet : Quiet t) :
    Tracked C r peerUid request t (consumedBy v) := by
  refine ⟨fun _ => ⟨v, o, hv, rfl, rfl, ho⟩, ?_, ?_, ?_, ?_, ?_, ?_⟩
  · simp [consumedBy, hquiet.not_opened]
  · simp [consumedBy, hquiet.not_isolated]
  · simp [consumedBy]
  · simp [consumedBy]
  · simp [consumedBy]
  · simp [consumedBy]

/-- The progress once the credential is open. -/
def openedBy (v : ValidatedRequest) (secret : Bytes) : Progress :=
  { consumedBy v with
    result := { (consumedBy v).result with credentialMaterialOpened := true }, secret :=
      some secret }

/-- Opening the credential is tracked. -/
theorem Tracked.open (h : Tracked C r peerUid request t (consumedBy v)) (secret : Bytes)
    (ho : Opened C r t')
    (hi : ¬ Isolated t') : Tracked C r peerUid request (t ++ t') (openedBy v secret) := by
  refine ⟨fun _ => ?_, ?_, ?_, ?_, ?_, fun _ => rfl, ?_⟩
  · obtain ⟨v', o, hadmitted, hid, hhash, happroved⟩ := h.approval rfl
    exact ⟨v', o, hadmitted, hid, hhash, @ValidatedRequest.Approved.within C v' o [] t t' happroved⟩
  · simp [openedBy, opened_append, ho]
  · rw [show (openedBy v secret).isolated = (consumedBy v).isolated from rfl, h.isolated]
    unfold Isolated
    rw [List.mem_append]
    exact (or_iff_left hi).symm
  · simp [openedBy, consumedBy]
  · simp [openedBy, consumedBy]
  · simp [openedBy, consumedBy]

/-- Making the isolation root opens nothing. -/
theorem makeIsolationRoot_tracked (C : Crypto) (r : Runner) {y : Outcome RunFailure Unit}
    (h : Runs (system (tell .makeIsolationRoot)) t y) :
    ¬ Opened C r t ∧ (y.isOk = true ↔ Isolated t) := by
  obtain ⟨t₁, t₂, x, rfl, h₁, h₂⟩ := runs_handle h
  obtain ⟨answer, rfl, rfl⟩ := runs_tell h₁
  cases answer with
  | error e =>
    obtain ⟨rfl, rfl⟩ := runs_raise h₂
    simp [Opened, Isolated, Except.isOk, Except.toBool]
  | ok =>
    obtain ⟨rfl, rfl⟩ := runs_ret h₂
    simp [Opened, Isolated, Except.isOk, Except.toBool]

theorem Tracked.isolate {s : Progress} (h : Tracked C r peerUid request t s) (ho : ¬ Opened C r t')
    (hi : Isolated t') : Tracked C r peerUid request (t ++ t') { s with isolated := true } := by
  refine ⟨fun happroval => ?_, ?_, ?_, fun hruntime =>
    List.mem_append_left _ (h.runtime hruntime), h.opened,
    h.consumed, fun hdone => h.finished hdone⟩
  · obtain ⟨v, o, hadmitted, hid, hhash, happroved⟩ := h.approval happroval
    exact ⟨v, o, hadmitted, hid, hhash, @ValidatedRequest.Approved.within C v o [] t t' happroved⟩
  · rw [h.credential, opened_append]
    simp [ho]
  · exact iff_of_true rfl (List.mem_append_right _ hi)

/-- The conclusion from what was observed is tracked too. -/
theorem Tracked.conclude {s : Progress} {seen : Observation} (h : Tracked C r peerUid request t s)
    (h₀ : s.result.completed = false) (hc : s.result.credentialMaterialOpened = true)
    (hran : Ran r t seen) :
    Tracked C r peerUid request t { s with result := s.result.concluded seen } := by
  obtain ⟨hruntime, hseen, happroval, hopened, hid, hhash⟩ := concluded_flags s.result seen
  refine ⟨?_, ?_, h.isolated, fun _ => hran.started, fun _ => ?_, ?_, fun hdone => ?_⟩
  · dsimp only
    rw [happroval, hid, hhash]
    exact h.approval
  · dsimp only
    rw [hopened]
    exact h.credential
  · exact hopened.trans hc
  · dsimp only
    rw [hopened, happroval]
    exact h.consumed
  · obtain ⟨htimed, hcode, houtcome⟩ := concluded_completed h₀ hdone
    exact ⟨hruntime, seen, hseen, hran.finished htimed hcode houtcome⟩

/-- The progress follows the calls. -/
theorem runPhases_tracked {y : Outcome (Progress × RunFailure) Progress}
    (h : Runs (runPhases C r path peerUid request) t y) :
    Tracked C r peerUid request t (progressOf y) := by
  rcases runs_phase h with ⟨e, hp, rfl⟩ | ⟨t₁, t, v, rfl, hadmit, h⟩
  · exact tracked_of_quiet rfl rfl rfl rfl rfl (quiet_of_calls (admitRequest_calls rfl) hp)
  have hquiet₁ : Quiet t₁ := quiet_of_calls (admitRequest_calls rfl) hadmit
  have hbundle {y : Outcome RunFailure Unit} {t : List (Event runnerSig)}
      (h : Runs (stable (tell (.verifyBundle v.operation))) t y) : Quiet t :=
    quiet_of_calls (calls_stable (calls_tell (P := (isQuiet · = true)) rfl)) h
  rcases runs_phase h with ⟨e, hp, rfl⟩ | ⟨t₂, t, _, rfl, hp, h⟩
  · exact tracked_of_quiet rfl rfl rfl rfl rfl (hquiet₁.append (hbundle hp))
  have hquiet₂ := hquiet₁.append (hbundle hp)
  rw [← List.append_assoc]
  rcases runs_phase h with ⟨e, hp, rfl⟩ | ⟨t₃, t, _, rfl, hconsume, h⟩
  · exact tracked_of_quiet rfl rfl rfl rfl rfl (hquiet₂.append (consumeApproval_quiet hp))
  have hquiet₃ := hquiet₂.append (consumeApproval_quiet hconsume)
  rw [← List.append_assoc]
  obtain ⟨o, ho⟩ := consumeApproval_ok hconsume
  have happroved : v.Approved C o (leftEvents (t₁ ++ t₂ ++ t₃)) := by
    simpa using @ValidatedRequest.Approved.within C v o (t₁ ++ t₂) t₃ [] ho
  have h₃ : Tracked C r peerUid request (t₁ ++ t₂ ++ t₃) (consumedBy v) :=
    tracked_consumed (admitRequest_ok hadmit) happroved hquiet₃
  rcases runs_phase h with ⟨e, hp, rfl⟩ | ⟨t₄, t, _, rfl, hp, h⟩
  · exact (h₃.quiet (hbundle hp)).failed
  have h₄ := h₃.quiet (hbundle hp)
  rw [← List.append_assoc]
  rcases runs_phase h with ⟨e, hp, rfl⟩ | ⟨t₅, t, _, rfl, hp, h⟩
  · exact (h₄.quiet (quiet_of_calls (calls_stable (calls_tell (P := (isQuiet · = true)) rfl))
      hp)).failed
  have h₅ := h₄.quiet (quiet_of_calls (calls_stable (calls_tell (P := (isQuiet · = true)) rfl)) hp)
  rw [← List.append_assoc]
  rcases runs_phase h with ⟨e, hp, rfl⟩ | ⟨t₆, t, secret, rfl, hopen, h⟩
  · have hnot := openCredential_tracked hp
    exact (h₅.extend (fun ho => absurd (hnot.1.mpr ho) (by simp [Except.isOk, Except.toBool]))
      hnot.2).failed
  have hsecret := openCredential_tracked hopen
  have h₆ := h₅.open secret (hsecret.1.mp rfl) hsecret.2
  rw [← List.append_assoc]
  rcases runs_phase h with ⟨e, hp, rfl⟩ | ⟨t₇, t, _, rfl, hmake, h⟩
  · have hmake := makeIsolationRoot_tracked C r hp
    exact (h₆.extend hmake.1 fun hi => absurd (hmake.2.mpr hi)
      (by simp [Except.isOk, Except.toBool])).failed
  have h₇ := h₆.isolate (makeIsolationRoot_tracked C r hmake).1
    ((makeIsolationRoot_tracked C r hmake).2.mp rfl)
  rw [← List.append_assoc]
  rcases runs_phase h with ⟨e, hp, rfl⟩ | ⟨t₈, t, _, rfl, hp, h⟩
  · exact (h₇.quiet (quiet_of_calls (calls_system (calls_tell (P := (isQuiet · = true)) rfl))
      hp)).failed
  have h₈ := h₇.quiet (quiet_of_calls (calls_system (calls_tell (P := (isQuiet · = true)) rfl)) hp)
  rw [← List.append_assoc]
  rcases runs_phase h with ⟨e, hp, rfl⟩ | ⟨t₉, t, seen, rfl, hchild, h⟩
  · exact (h₈.quiet (runChild_quiet hp)).failed
  obtain ⟨rfl, rfl⟩ := runs_ret h
  rw [List.append_nil]
  exact (h₈.quiet (runChild_quiet hchild)).conclude rfl rfl ((runChild_ran hchild).after _)

/-! ## The result -/

/-- The isolation root is found to be gone where there was one. -/
theorem removeIsolation_true {s : Progress} (h : Runs (removeIsolation s) t (.ok true))
    (hs : s.isolated = true) :
    (⟨.inr .isolationRootExists, .ok false⟩ : Event runnerSig) ∈ t := by
  unfold removeIsolation at h
  rw [if_pos hs] at h
  obtain ⟨t₁, t₂, answer, rfl, -, h⟩ := runs_bind h
  cases answer with
  | error e => exact absurd (Except.ok.inj (runs_ret h).2) (by simp)
  | ok =>
    obtain ⟨t₃, t₄, left, rfl, hexists, h⟩ := runs_bind h
    have hleft : left = false := by simpa using (Except.ok.inj (runs_ret h).2).symm
    obtain ⟨answer, rfl, hanswer⟩ := runs_tell (runs_system hexists)
    obtain rfl := Except.ok.inj hanswer
    rw [hleft]
    simp

/-- What the cleaning up makes of a result. -/
structure Cleaned (t : List (Event runnerSig)) (s : Progress) (result : RunnerResult) : Prop where
  operationId : result.operationId = s.result.operationId
  planHash : result.planHash = s.result.planHash
  approval : result.approvalConsumed = s.result.approvalConsumed
  credential : result.credentialMaterialOpened = s.result.credentialMaterialOpened
  runtime : result.runtimeStarted = s.result.runtimeStarted
  observation : result.observation = s.result.observation
  removed : result.isolationRootRemoved = true → s.isolated = true →
    (⟨.inr .isolationRootExists, .ok false⟩ : Event runnerSig) ∈ t
  completed : result.completed = true → s.result.completed = true
    ∧ result.isolationRootRemoved = true

/-- The clean-up reports whether the root is gone. -/
theorem cleanUp_ok {s : Progress} {result : RunnerResult} (h : Runs (cleanUp s) t (.ok result)) :
    Cleaned t s result := by
  obtain ⟨t₁, t₂, removed, rfl, hremove, h⟩ := runs_bind h
  have hgone : removed = true → s.isolated = true →
      (⟨.inr .isolationRootExists, .ok false⟩ : Event runnerSig) ∈ t₁ ++ t₂ := by
    rintro rfl hs
    exact List.mem_append_left _ (removeIsolation_true hremove hs)
  dsimp only at h
  split at h
  · obtain rfl := Except.ok.inj (runs_ret h).2
    exact ⟨rfl, rfl, rfl, rfl, rfl, rfl, hgone, fun hdone => absurd hdone (by simp)⟩
  · next hkept =>
    obtain rfl := Except.ok.inj (runs_ret h).2
    refine ⟨rfl, rfl, rfl, rfl, rfl, rfl, hgone, fun hdone => ⟨hdone, ?_⟩⟩
    simp only [Bool.or_eq_true, Bool.not_eq_true', not_or, Bool.not_eq_false] at hkept
    exact hkept.2

theorem cleanUp_quiet {s : Progress} {x : Outcome RunFailure RunnerResult}
    (h : Runs (cleanUp s) t x) : Quiet t := by
  have hcalls : (cleanUp s).Calls (isQuiet · = true) :=
    (removeIsolation_calls (P := (isQuiet · = true)) rfl rfl s).bind fun _ =>
      Prog.Calls.ite trivial trivial
  exact quiet_of_calls hcalls h

/-- What is signed is the result that is returned. -/
theorem signRun_ok {result result' : RunnerResult} {signature : Bytes}
    (h : Runs (signRun r result) t (.ok (result', signature))) : result' = result ∧ ∃ raw,
      canonicalBytes (.obj (result.members r)) = some raw
        ∧ (⟨.inr (.sign raw), .ok signature⟩ : Event runnerSig) ∈ t := by
  unfold signRun at h
  split at h
  · exact absurd (runs_checked h).2 (by simp)
  · next raw hraw =>
    obtain ⟨t₁, t₂, made, rfl, hsign, h⟩ := runs_bind h
    obtain ⟨rfl, hpair⟩ := runs_ret h
    obtain ⟨rfl, rfl⟩ := Prod.mk.inj (Except.ok.inj hpair)
    obtain ⟨t₃, t₄, y, rfl, h₁, h₂⟩ := runs_handle hsign
    obtain ⟨answer, rfl, rfl⟩ := runs_tell h₁
    obtain ⟨rfl, rfl⟩ := runs_checked h₂
    exact ⟨rfl, raw, hraw, by simp⟩

/-- A signed result keeps to what has happened. -/
structure Honest (C : Crypto) (r : Runner) (peerUid : Nat) (request : Members)
    (t : List (Event runnerSig))
    (result : RunnerResult) (signature : Bytes) : Prop where
  /-- the approval of exactly the operation that the result names -/
  approval : result.approvalConsumed = true → ∃ v o, Admitted C r peerUid request v
    ∧ result.operationId = some v.operationId ∧ result.planHash = some v.planHash
      ∧ v.Approved C o (leftEvents t)
  credential : result.credentialMaterialOpened = true ↔ Opened C r t
  consumed : result.credentialMaterialOpened = true → result.approvalConsumed = true
  runtime : result.runtimeStarted = true → Started t ∧ result.credentialMaterialOpened = true
  removed : result.isolationRootRemoved = true → Isolated t →
    (⟨.inr .isolationRootExists, .ok false⟩ : Event runnerSig) ∈ t
  completed : result.completed = true → result.runtimeStarted = true
    ∧ result.isolationRootRemoved = true
    ∧ ∃ seen, result.observation = some seen ∧ Finished r t seen
  /-- the signature is one of this very result -/
  signed : ∃ raw, canonicalBytes (.obj (result.members r)) = some raw
    ∧ (⟨.inr (.sign raw), .ok signature⟩ : Event runnerSig) ∈ t

/-- **A signed result is honest.** Whatever is answered, the flags of the result that `execute`
signs hold of the calls it made. -/
theorem execute_honest (C : Crypto) (r : Runner) (path : PyStr) (peerUid : Nat)
    (request : Members) :
    Ensures (fun t x => ∀ result signature, x = .ok (result, signature) →
      Honest C r peerUid request t result signature) [] (execute C r path peerUid request) := by
  refine ensures_of_runs fun t x h => ?_
  rintro result signature rfl
  rw [List.nil_append]
  obtain ⟨t₁, t₂, s, rfl, hphases, h⟩ := runs_bind h
  obtain ⟨t₃, t₄, cleaned, rfl, hclean, hsign⟩ := runs_bind h
  obtain ⟨rfl, raw, hraw, hsigned⟩ := signRun_ok hsign
  have htracked : Tracked C r peerUid request t₁ s := by
    obtain ⟨y, hrun, hs⟩ := runs_phases hphases
    rw [Except.ok.inj hs]
    exact runPhases_tracked hrun
  have hquiet : Quiet t₄ := quiet_of_calls
    (signRun_calls (P := (isQuiet · = true)) (fun _ => rfl) _) hsign
  have hlater : Tracked C r peerUid request (t₁ ++ (t₃ ++ t₄)) s :=
    htracked.quiet ((cleanUp_quiet hclean).append hquiet)
  have hcleaned := cleanUp_ok hclean
  refine ⟨?_, ?_, ?_, ?_, ?_, ?_, ?_⟩
  · rw [hcleaned.approval, hcleaned.operationId, hcleaned.planHash]
    exact hlater.approval
  · rw [hcleaned.credential]
    exact hlater.credential
  · rw [hcleaned.credential, hcleaned.approval]
    exact hlater.consumed
  · rw [hcleaned.runtime, hcleaned.credential]
    exact fun hruntime => ⟨hlater.runtime hruntime, hlater.opened hruntime⟩
  · intro hremoved hisolated
    have hgone := hcleaned.removed hremoved (hlater.isolated.mpr hisolated)
    exact List.mem_append_right _ (List.mem_append_left _ hgone)
  · intro hdone
    obtain ⟨hcompleted, hremoved⟩ := hcleaned.completed hdone
    rw [hcleaned.runtime, hcleaned.observation]
    obtain ⟨hruntime, hseen⟩ := hlater.completed hcompleted
    exact ⟨hruntime, hremoved, hseen⟩
  · exact ⟨raw, hraw, List.mem_append_right _ (List.mem_append_right _ hsigned)⟩

end Flags

end SddGov.TrustedRunner
