import SddGov.Effect.FailStop
import SddGov.Governance.Resolution
import SddGov.Governance.Traces
import SddGov.Governance.WorkClaims

/-!
# A failure in the middle of a call

Each of the three calls that change the state replaces one store and then
appends an event to another file. Whichever filesystem call fails, the call of
the governance raises and writes nothing more (`FailStop`). There is no way back
from the replacement, so the files are as they were exactly where the failure
comes before it (`stores_kept_iff`); what can fail after it is the clean-up, the
event and the lock.
-/

namespace SddGov.Governance

open SddGov.Effect SddGov.Python

/-- A call that changes the stores. -/
inductive StateCall
  | claimWork (req : ClaimRequest)
  | enqueueExternalAction (req : ActionRequest)
  | resolveExternalAction (r : Resolution)

def StateCall.run (C : Crypto) : StateCall → HostProg Json
  | .claimWork req => Governance.claimWork req
  | .enqueueExternalAction req =>
    (Governance.enqueueExternalAction C req).handle (fun row => .ret (.obj row)) .raise
  | .resolveExternalAction r =>
    (Governance.resolveExternalAction C r).handle (fun row => .ret (.obj row)) .raise

/-- A filesystem call that fails. That the temporary file is gone is no failure: it has been
moved over the store. -/
def Fails : Event hostSig → Prop
  | ⟨.readJson _, r⟩ => ∃ e, r = .error (.os e)
  | ⟨.unlinkTemporary _, r⟩ => ∃ e, r = .error e ∧ e ≠ .missing
  | ⟨.makeParent _, r⟩ => ∃ e, r = .error e
  | ⟨.makeTemporary _, r⟩ => ∃ e, r = .error e
  | ⟨.writeTemporary _ _, r⟩ => ∃ e, r = .error e
  | ⟨.syncTemporary _, r⟩ => ∃ e, r = .error e
  | ⟨.replace _ _, r⟩ => ∃ e, r = .error e
  | ⟨.appendEvent _, r⟩ => ∃ e, r = .error e
  | ⟨.openLock _, r⟩ => ∃ e, r = .error e
  | ⟨.flock _, r⟩ => ∃ e, r = .error e
  | ⟨.unflock _, r⟩ => ∃ e, r = .error e
  | ⟨.closeLock _, r⟩ => ∃ e, r = .error e
  | _ => False

/-- A store is replaced. -/
def Replaces : Event hostSig → Prop
  | ⟨.replace _ _, r⟩ => r = .ok ()
  | _ => False

/-- A store or the file of the events changes; an append that fails may have written a part
of its line. -/
def Changes : Event hostSig → Prop
  | ⟨.replace _ _, r⟩ => r = .ok ()
  | ⟨.appendEvent _, _⟩ => True
  | _ => False

/-- The calls that are made after the replacement of a store. -/
def AfterReplace : HostOp → Prop
  | .unlinkTemporary _ => True
  | .makeParent file => file = .events
  | .now => True
  | .appendEvent _ => True
  | .unflock _ => True
  | .closeLock _ => True
  | _ => False

theorem replaces_changes (event : Event hostSig) (h : Replaces event) : Changes event := by
  obtain ⟨o, r⟩ := event
  cases o <;> first | exact h | exact h.elim

theorem replaces_not_fails (event : Event hostSig) (h : Replaces event) : ¬Fails event := by
  obtain ⟨o, r⟩ := event
  cases o <;> try exact h.elim
  rintro ⟨e, he⟩
  exact absurd (h.symm.trans he) (by simp)

/-! ## Every call ends at its first failure -/

section FailStop

variable {α : Type}

/-- The program is fail-stop for the calls on the filesystem. -/
abbrev Stops (p : HostProg α) : Prop := FailStop Fails Changes p

theorem stops_ask {o : HostOp} (h : ∀ r, ¬Fails ⟨o, r⟩) : Stops (ask o) :=
  FailStop.call (fun _ => .ret _) fun r hr => absurd hr (h r)

/-- A call that stops at its failures stops. -/
theorem stops_sys (o : HostOp) (answer : hostSig.Resp o → Sys α)
    (h : ∀ r, Fails ⟨o, r⟩ → ∃ e, answer r = .error e) :
    Stops (sys (.call o fun r => .ret (answer r))) := by
  refine FailStop.call (fun r => ?_) fun r hr => ?_
  · show Stops (sys (.ret (answer r)))
    cases answer r with
    | ok a => exact .ret a
    | error e => exact .raise _
  · obtain ⟨e, he⟩ := h r hr
    refine ⟨Exn.os e, ?_⟩
    show sys (.ret (answer r)) = _
    rw [he]
    rfl

theorem stops_readJson (file : StateFile) (default : Json) : Stops (readJson file default) := by
  refine FailStop.bind (FailStop.call (fun r => .ofExcept r) fun r hr => ?_) fun _ => .ret _
  obtain ⟨e, rfl⟩ := hr
  exact ⟨Exn.os e, rfl⟩

/-- Removing the temporary file fails with the error of its call. -/
theorem stops_unlinkTemporary (file : StateFile) : Stops (unlinkTemporary file) := by
  refine FailStop.call (fun r => ?_) fun r hr => ?_
  · cases r with
    | ok u => exact .ret u
    | error e =>
      show Stops (if Exn.os e = .os .missing then .ret () else .raise (.os e))
      split
      · exact .ret ()
      · exact .raise _
  · obtain ⟨e, rfl, he⟩ := hr
    have hne : Exn.os e ≠ .os .missing := fun h => he (Exn.os.inj h)
    exact ⟨Exn.os e, if_neg hne⟩

theorem harmless_unlinkTemporary (file : StateFile) :
    (unlinkTemporary file).Calls fun o => Harmless Changes o ∧ AfterReplace o := by
  refine Prog.Calls.handle (calls_sys (.perform ⟨fun r h => h, trivial⟩)) (fun _ => trivial)
    fun e => ?_
  exact .ite trivial trivial

/-- A write stops at the first of its calls that fails. -/
theorem stops_writeJson (file : StateFile) (value : Json) : Stops (writeJson file value) := by
  refine (stops_sys (.makeParent file) (fun r => r) fun r h => h).bind fun _ => ?_
  refine (stops_sys (.makeTemporary file) (fun r => r) fun r h => h).bind fun _ => ?_
  refine FailStop.tryFinally ?_ (stops_unlinkTemporary file)
    ((harmless_unlinkTemporary file).mono fun _ h => h.1)
  refine FailStop.bind ?_ fun _ => ?_
  · unfold writeTemporary
    split
    · exact stops_sys (.writeTemporary file value) (fun r => r) fun r h => h
    · exact .raise _
  · refine (stops_sys (.syncTemporary file) (fun r => r) fun r h => h).bind fun _ => ?_
    exact stops_sys (.replace file value) (fun r => r) fun r h => h

theorem stops_emitEvent (eventType risk : PyStr) (payload : Json) :
    Stops (emitEvent eventType risk payload) := by
  unfold emitEvent
  split
  · exact .raise _
  · refine (stops_sys (.makeParent .events) (fun r => r) fun r h => h).bind fun _ => ?_
    refine FailStop.bind (stops_ask fun _ h => h) fun at' => ?_
    split
    · exact stops_sys (.appendEvent _) (fun r => r) fun r h => h
    · exact .raise _

/-- What runs under a lock stops too, once the lock is given back. -/
theorem stops_withLock {lock : StateLock} {body : HostProg α} (hbody : Stops body) :
    Stops (withLock lock body) := by
  have hunflock : Stops (sys (ask (.unflock lock))) :=
    stops_sys (.unflock lock) (fun r => r) fun r h => h
  have hclose : Stops (sys (ask (.closeLock lock))) :=
    stops_sys (.closeLock lock) (fun r => r) fun r h => h
  refine (stops_sys (.makeParent lock.file) (fun r => r) fun r h => h).bind fun _ => ?_
  refine (stops_sys (.openLock lock) (fun r => r) fun r h => h).bind fun _ => ?_
  refine FailStop.tryFinally ?_ hclose (calls_sys (.perform fun r h => h))
  refine (stops_sys (.flock lock) (fun r => r) fun r h => h).bind fun _ => ?_
  exact hbody.tryFinally hunflock (calls_sys (.perform fun r h => h))

/-- Reusing an action stops at a failing call. -/
theorem stops_reuseAction (req : ActionRequest) (rows : List Json) (row : Members) :
    Stops (reuseAction req rows row) := by
  unfold reuseAction
  split
  · exact .ret _
  · split
    · exact .raise _
    · next expiry _ =>
      refine FailStop.bind (stops_ask fun _ h => h) fun current => ?_
      split
      · refine FailStop.bind (stops_ask fun _ h => h) fun resolvedAt => ?_
        refine (stops_writeJson _ _).bind fun _ => ?_
        exact (stops_emitEvent _ _ _).bind fun _ => .ret _
      · exact .ret _

theorem stops_createAction (req : ActionRequest) (rows : List Json) (requestSha256 : PyStr)
    (ttl : Int) :
    Stops (createAction req rows requestSha256 ttl) := by
  refine FailStop.bind (stops_ask fun _ h => h) fun current => ?_
  refine (FailStop.ofExcept _).bind fun item => ?_
  refine (stops_writeJson _ _).bind fun _ => ?_
  exact (stops_emitEvent _ _ _).bind fun _ => .ret _

theorem stops_enqueueUnlocked (C : Crypto) (req : ActionRequest) :
    Stops (enqueueUnlocked C req) := by
  refine (FailStop.ofExcept _).bind fun ttl => (stops_readJson _ _).bind fun data => ?_
  refine (FailStop.ofExcept _).bind fun rows => (FailStop.ofExcept _).bind fun found => ?_
  obtain ⟨existing, requestSha256⟩ := found
  cases existing with
  | some row => exact stops_reuseAction req rows row
  | none => exact stops_createAction req rows requestSha256 ttl

theorem stops_resolveUnlocked (C : Crypto) (r : Resolution) : Stops (resolveUnlocked C r) := by
  refine (stops_readJson _ _).bind fun data => (FailStop.ofExcept _).bind fun rows => ?_
  refine (FailStop.ofExcept _).bind fun row => ?_
  split
  · exact .ofExcept _
  · refine (FailStop.ofExcept _).bind fun _ => (stops_writeJson _ _).bind fun _ => ?_
    exact (stops_emitEvent _ _ _).bind fun _ => .ret _

theorem stops_claimWork (req : ClaimRequest) : Stops (claimWork req) := by
  unfold claimWork
  split
  · exact .raise _
  · refine (stops_readJson _ _).bind fun data =>
      FailStop.bind (stops_ask fun _ h => h) fun current => ?_
    refine (FailStop.ofExcept _).bind fun granted => (stops_writeJson _ _).bind fun _ => ?_
    exact (stops_emitEvent _ _ _).bind fun _ => .ret _

theorem stops_run (C : Crypto) (call : StateCall) : Stops (call.run C) := by
  cases call with
  | claimWork req => exact stops_claimWork req
  | enqueueExternalAction req =>
    exact (stops_withLock (stops_enqueueUnlocked C req)).bind fun _ => .ret _
  | resolveExternalAction r =>
    refine FailStop.bind ?_ fun _ => .ret _
    exact (FailStop.ofExcept _).bind fun _ => stops_withLock (stops_resolveUnlocked C r)

end FailStop

/-! ## Every call replaces one store, and then adds its event -/

section Commits

variable {α : Type}

/-- The program changes nothing before it replaces a store, and then makes the calls that
come after a replacement. -/
abbrev Replacing (p : HostProg α) : Prop := Commits Changes Replaces AfterReplace p

theorem quiet_readJson (file : StateFile) (default : Json) :
    (readJson file default).Calls (Harmless Changes) := by
  refine Prog.Calls.bind ?_ fun _ => trivial
  exact Prog.Calls.bind (.perform fun _ h => h) fun _ => .ofExcept _

theorem replacing_writeJson (file : StateFile) (value : Json) :
    Replacing (writeJson file value) := by
  refine .after (calls_sys (.perform fun _ h => h)) fun _ => ?_
  refine .after (calls_sys (.perform fun _ h => h)) fun _ => ?_
  refine Commits.tryFinally ?_ (harmless_unlinkTemporary file)
  refine .after (calls_writeTemporary fun _ h => h) fun _ => ?_
  refine .after (calls_sys (.perform fun _ h => h)) fun _ => ?_
  refine Commits.call (fun r h => h) fun r => ?_
  cases r <;> trivial

/-- A store is replaced, and then its event is added. -/
theorem replacing_event {file : StateFile} {value : Json} {eventType risk : PyStr}
    {payload : Json} {a : α} :
    Replacing (writeJson file value >>= fun _ => emitEvent eventType risk payload >>= fun _ =>
      pure a) := by
  refine Commits.before (replacing_writeJson file value) (fun t u h => ?_) replaces_changes
    fun _ => ?_
  · exact ⟨_, runs_writeJson h, rfl⟩
  · exact (calls_emitEvent (P := AfterReplace) rfl trivial fun _ => trivial).bind fun _ => trivial

theorem replacing_withLock {lock : StateLock} {body : HostProg α} (hbody : Replacing body) :
    Replacing (withLock lock body) := by
  refine .after (calls_sys (.perform fun _ h => h)) fun _ => ?_
  refine .after (calls_sys (.perform fun _ h => h)) fun _ => ?_
  refine Commits.tryFinally ?_ (calls_sys (.perform ⟨fun _ h => h, trivial⟩))
  refine .after (calls_sys (.perform fun _ h => h)) fun _ => ?_
  exact Commits.tryFinally hbody (calls_sys (.perform ⟨fun _ h => h, trivial⟩))

/-- Reusing an action replaces nothing. -/
theorem replacing_reuseAction (req : ActionRequest) (rows : List Json) (row : Members) :
    Replacing (reuseAction req rows row) := by
  unfold reuseAction
  split
  · exact .quiet trivial
  · split
    · exact .quiet trivial
    · next expiry _ =>
      refine .after (.perform fun _ h => h) fun current => ?_
      split
      · exact .after (.perform fun _ h => h) fun resolvedAt => replacing_event
      · exact .quiet trivial

theorem replacing_createAction (req : ActionRequest) (rows : List Json) (requestSha256 : PyStr)
    (ttl : Int) :
    Replacing (createAction req rows requestSha256 ttl) := by
  refine .after (.perform fun _ h => h) fun current => ?_
  exact .after (.ofExcept _) fun item => replacing_event

theorem replacing_enqueueUnlocked (C : Crypto) (req : ActionRequest) :
    Replacing (enqueueUnlocked C req) := by
  refine .after (.ofExcept _) fun ttl => .after (quiet_readJson _ _) fun data => ?_
  refine .after (.ofExcept _) fun rows => .after (.ofExcept _) fun found => ?_
  obtain ⟨existing, requestSha256⟩ := found
  cases existing with
  | some row => exact replacing_reuseAction req rows row
  | none => exact replacing_createAction req rows requestSha256 ttl

theorem replacing_resolveUnlocked (C : Crypto) (r : Resolution) :
    Replacing (resolveUnlocked C r) := by
  refine .after (quiet_readJson _ _) fun data => .after (.ofExcept _) fun rows => ?_
  refine .after (.ofExcept _) fun row => ?_
  split
  · exact .quiet (.ofExcept _)
  · exact .after (.ofExcept _) fun _ => replacing_event

theorem replacing_claimWork (req : ClaimRequest) : Replacing (claimWork req) := by
  unfold claimWork
  split
  · exact .quiet trivial
  · refine .after (quiet_readJson _ _) fun data => .after (.perform fun _ h => h) fun current => ?_
    exact .after (.ofExcept _) fun granted => replacing_event

theorem replacing_run (C : Crypto) (call : StateCall) : Replacing (call.run C) := by
  cases call with
  | claimWork req => exact replacing_claimWork req
  | enqueueExternalAction req =>
    exact (replacing_withLock (replacing_enqueueUnlocked C req)).map Json.obj
  | resolveExternalAction r =>
    refine Commits.map ?_ Json.obj
    exact .after (.ofExcept _) fun _ => replacing_withLock (replacing_resolveUnlocked C r)

end Commits

/-! ## What a failure leaves behind -/

/-- **The stores and the events are kept** by a call that raises if and only if the filesystem
call that failed came before a store was replaced; a later one is the clean-up, the event or the
lock. -/
theorem stores_kept_iff (C : Crypto) (call : StateCall) {before after : List (Event hostSig)}
    {failed : Event hostSig} {e : Exn}
    (h : Runs (call.run C) (before ++ failed :: after) (.error e))
    (hfailed : Fails failed) :
    (Untouched Changes (before ++ failed :: after) ↔ ∀ event ∈ before, ¬Replaces event)
      ∧ (¬Untouched Changes (before ++ failed :: after) → AfterReplace failed.1) := by
  have hstops := stops_run C call
  have hreplacing := replacing_run C call
  constructor
  · exact untouched_iff hstops hreplacing replaces_changes replaces_not_fails h hfailed
  · intro htouched
    exact late_of_touched hstops hreplacing replaces_changes replaces_not_fails h hfailed htouched

/-- The request of a claim of one hour. -/
def hourClaim : ClaimRequest := ⟨lit "WP-1", lit "agent", 60⟩

/-- A host without any state, on which nothing can be appended to the events. -/
def fullHost : (o : HostOp) → hostSig.Resp o
  | .appendEvent _ => .error .other
  | o => CalmHost.answer ⟨⟨63000000000000000, sampleMicros_lt⟩, fun _ =>
      .ok none, fun _ => [], []⟩ o

def isAppend : HostOp → Bool
  | .appendEvent _ => true
  | _ => false

def isReplace : HostOp → Bool
  | .replace _ _ => true
  | _ => false

theorem fails_fullHost {o : HostOp} : Fails ⟨o, fullHost o⟩ ↔ isAppend o = true := by
  cases o <;> simp [Fails, fullHost, isAppend, CalmHost.answer]

/-- On that host the claim is recorded, and then its event fails. -/
theorem hourClaim_fails (C : Crypto) :
    ∃ before failed after e, Runs ((StateCall.claimWork hourClaim).run C)
    (before ++ failed :: after) (.error e)
      ∧ Fails failed ∧ (∀ g ∈ before ++ after, ¬Fails g) ∧ ∃ g ∈ before ++ failed :: after,
        Replaces g := by
  have hrun := runs_answered fullHost (claimWork hourClaim)
  have hanswers : ∀ g ∈ ((claimWork hourClaim).answered fullHost).1, g = ⟨g.1, fullHost g.1⟩ := by
    intro g hg
    rw [← mem_answered hg]
  have hcount : ((claimWork hourClaim).answered fullHost).1.countP (fun g => isAppend g.1) = 1 := by
    decide
  have hreplace : ((claimWork hourClaim).answered fullHost).1.any (fun g => isReplace g.1)
    = true := by
    decide
  have hraises : ((claimWork hourClaim).answered fullHost).2.toOption.isNone = true := by decide
  generalize (claimWork hourClaim).answered fullHost = run at *
  obtain ⟨t, x⟩ := run
  dsimp only at *
  cases x with
  | ok a => exact absurd hraises (by simp [Except.toOption])
  | error e =>
  obtain ⟨failed, hmem, happend⟩ := List.countP_pos_iff.mp
    (by omega : 0 < t.countP fun g => isAppend g.1)
  obtain ⟨before, after, rfl⟩ := List.append_of_mem hmem
  refine ⟨before, failed, after, e, hrun, ?_, fun g hg hfails => ?_, ?_⟩
  · rw [hanswers failed hmem]
    exact fails_fullHost.mpr happend
  · -- there is one append in the trace
    have hg' : g ∈ before ++ failed :: after := by
      rcases List.mem_append.mp hg with h | h <;> simp [h]
    rw [hanswers g hg'] at hfails
    have hsecond : 0 < (before ++ after).countP fun g => isAppend g.1 :=
      List.countP_pos_iff.mpr ⟨g, hg, fails_fullHost.mp hfails⟩
    simp only [List.countP_append, List.countP_cons, happend, if_true] at hcount hsecond
    omega
  · obtain ⟨g, hg, hisReplace⟩ := List.any_eq_true.mp hreplace
    refine ⟨g, hg, ?_⟩
    rw [hanswers g hg]
    obtain ⟨o, r⟩ := g
    cases o <;> first | rfl | exact absurd hisReplace (by simp [isReplace])

/-- The primitives are not asked. -/
def anyCrypto : Crypto := .ofTables [] []

/-- The claims cannot be read. -/
def unreadClaims : Event hostSig := ⟨.readJson .workClaims, .error (.os .other)⟩

theorem hourClaim_unread (C : Crypto) :
    Runs ((StateCall.claimWork hourClaim).run C) [unreadClaims] (.error (.os .other)) :=
  .call _ (.raise _)

/-- A read fails, and nothing has changed; the event fails, and the claim has been stored. -/
theorem stores_kept_sample :
    (Fails unreadClaims
      ∧ (Untouched Changes [unreadClaims] ↔ ∀ event ∈ ([] : List (Event hostSig)), ¬Replaces event)
      ∧ Untouched Changes [unreadClaims])
    ∧ ∃ before failed after e,
      Runs ((StateCall.claimWork hourClaim).run anyCrypto) (before ++ failed :: after) (.error e)
      ∧ Fails failed
      ∧ (Untouched Changes (before ++ failed :: after) ↔ ∀ event ∈ before, ¬Replaces event)
      ∧ (¬Untouched Changes (before ++ failed :: after) → AfterReplace failed.1) := by
  constructor
  · have hfails : Fails unreadClaims := ⟨_, rfl⟩
    have hkept := @stores_kept_iff anyCrypto (.claimWork hourClaim) [] [] unreadClaims _
      (hourClaim_unread anyCrypto) hfails
    exact ⟨hfails, hkept.1, hkept.1.mpr fun _ h => absurd h List.not_mem_nil⟩
  · obtain ⟨before, failed, after, e, hrun, hfails, -, -⟩ := hourClaim_fails anyCrypto
    exact ⟨before, failed, after, e, hrun, hfails,
      stores_kept_iff anyCrypto (.claimWork hourClaim) hrun hfails⟩

/-- One call fails, the caller gets an exception, and the claim stands in the store. -/
theorem claim_without_event :
    ¬∀ (C : Crypto) (call : StateCall) (before after : List (Event hostSig)) (failed :
      Event hostSig)
      (e : Exn), Runs (call.run C) (before ++ failed :: after) (.error e) → Fails failed →
      (∀ g ∈ before ++ after, ¬Fails g) → Untouched Changes (before ++ failed :: after) := by
  intro h
  obtain ⟨before, failed, after, e, hrun, hfails, hsingle, g, hg, hreplaces⟩ :=
    hourClaim_fails anyCrypto
  exact h anyCrypto (.claimWork hourClaim) before after failed e hrun hfails hsingle g hg
    (replaces_changes g hreplaces)

end SddGov.Governance
