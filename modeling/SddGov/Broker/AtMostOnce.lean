import SddGov.Broker.Client
import SddGov.Broker.Disk
import SddGov.Broker.Scan

/-!
# At most once under partial failure

Any number of `initialize`, `validate`, `health` and `consume` requests run on
one ledger in any interleaving; any append can be cut, any sync can fail, any
request can be killed between two calls.

The ghost state names the request that wrote each nonce (`owner`), the one
whose append is under way (`writer`), those an accepting scan let through
under the exclusive lock (`passed`) and those whose sync succeeded (`acked`). What ties them to the
bytes is `LedgerInv`: an owned nonce is recorded, so no later accepting scan can let it through
again. A torn ledger with no append under way is frozen (`Frozen`): no scan accepts it, so nothing
is ever appended to it.
-/

namespace SddGov.Broker

open SddGov.Effect SddGov.Python

variable {ι : Type}

/-- What a request asks of the ledger. -/
inductive Job
  | initializeLedger
  | validate
  | request (raw : Bytes)

section Runs

variable [Nesting]

/-- The program of a request; only requests are answered. -/
def Job.prog (L : NonceLedger) : Job → LedgerProg Bytes
  | .initializeLedger => do
    L.initializeLedger
    pure []
  | .validate => do
    L.validate
    pure []
  | .request raw => handleRequest L raw

/-- The nonce a job asks to consume. -/
def Job.nonce? : Job → Option PyStr
  | .request raw =>
    match parseRequest raw with
    | .ok m =>
      match request? m with
      | some (.consume nonce _ _) => some nonce
      | _ => none
    | .error _ => none
  | _ => none

/-- The world of a run: the disk and the calls so far. -/
abbrev LedgerWorld (ι : Type) := Disk ι × List (ι × Event ledgerSig)

/-- A run starts with any ledger and no locks. -/
def startConf (L : NonceLedger) (jobs : ι → Job) (ledger : Option Bytes) :
    Conf ι (LedgerWorld ι) ledgerSig Exn Bytes where
  world := (⟨ledger, true, ledger.getD [], fun _ => .none⟩, [])
  threads i := some ((jobs i).prog L)

/-! ## The invariant -/

/-- Who wrote each nonce, whose append is under way, whom a scan let through and whose
append was synced. -/
structure Ghost (ι : Type) where
  owner : PyStr → Option ι
  writer : Option ι
  passed : ι → Bool
  acked : ι → Bool

/-- The append of `i` is over. -/
def Ghost.clear [DecidableEq ι] (g : Ghost ι) (i : ι) : Ghost ι :=
  { g with writer := if g.writer = some i then none else g.writer }

/-- No write stands in the log. -/
def NoWrites (log : List (ι × Event ledgerSig)) : Prop := ∀ e ∈ log, ∀ chunk, e.2.1 ≠ .write chunk

/-- The event of a successful sync of the ledger. -/
def synced : Event ledgerSig := ⟨.fsync, (.ok () : Sys Unit)⟩

/-- Since the last sync nothing was written and the ledger is accepted, with the nonce synced. -/
def Settled (jobs : ι → Job) (w : LedgerWorld ι) : Prop :=
  ∀ l i l', w.2 = l ++ (i, synced) :: l' → NoWrites l' →
    ∃ seen, scan w.1.bytes = .ok seen ∧ ∀ n, (jobs i).nonce? = some n → n ∈ seen

/-- The invariant of a ledger that began with the bytes `base`. -/
structure LedgerInv (jobs : ι → Job) (base : Bytes) (s : LedgerWorld ι × Ghost ι) : Prop where
  exclusive : ∀ i j, i ≠ j → s.1.1.locks i = .exclusive → s.1.1.locks j = .none
  writer : ∀ i, s.2.writer = some i → s.1.1.locks i = .exclusive
  owned : ∀ n i, s.2.owner n = some i → Recorded n s.1.1.bytes
  passed : ∀ i, s.2.passed i = true → ∃ e ∈ s.1.2, e.1 = i
  acked : ∀ i, s.2.acked i = true → (i, synced) ∈ s.1.2
  settled : Settled jobs s.1
  base_le : base <+: s.1.1.durable
  durable_le : s.1.1.durable <+: s.1.1.bytes
  fresh : ∀ n i, s.2.owner n = some i → ¬Recorded n base
  survives : ∀ i n, s.2.acked i = true → (jobs i).nonce? = some n → Recorded n s.1.1.durable

/-- The tail is torn and nobody is about to mend it. -/
def Frozen (s : LedgerWorld ι × Ghost ι) : Prop := Torn s.1.1.bytes ∧ s.2.writer = none

/-- What any step does: owners stay, a frozen ledger stays as it is. -/
structure Evolves (s s' : LedgerWorld ι × Ghost ι) : Prop where
  owner : ∀ n i, s.2.owner n = some i → s'.2.owner n = some i
  frozen : Frozen s → s'.1.1.bytes = s.1.1.bytes ∧ s'.2.writer = none ∧ s'.2.passed = s.2.passed

/-- What others do to thread `i`. -/
structure Framed (i : ι) (s s' : LedgerWorld ι × Ghost ι) : Prop where
  evolves : Evolves s s'
  lock : s'.1.1.locks i = s.1.1.locks i
  bytes : s.1.1.locks i ≠ .none → s'.1.1.bytes = s.1.1.bytes
  held : s.1.1.locks i = .exclusive → s'.2.owner = s.2.owner
  writer : s'.2.writer = some i ↔ s.2.writer = some i
  passed : s'.2.passed i = s.2.passed i
  acked : s'.2.acked i = s.2.acked i

omit [Nesting] in
theorem Evolves.refl (s : LedgerWorld ι × Ghost ι) : Evolves s s :=
  ⟨fun _ _ h => h, fun h => ⟨rfl, h.2, rfl⟩⟩

omit [Nesting] in
theorem Evolves.trans {s₁ s₂ s₃ : LedgerWorld ι × Ghost ι} (h₁ : Evolves s₁ s₂)
    (h₂ : Evolves s₂ s₃) : Evolves s₁ s₃ := by
  refine ⟨fun n i h => h₂.owner n i (h₁.owner n i h), fun hf => ?_⟩
  obtain ⟨b1, w1, p1⟩ := h₁.frozen hf
  obtain ⟨b2, w2, p2⟩ := h₂.frozen ⟨by rw [b1]; exact hf.1, w1⟩
  exact ⟨b2.trans b1, w2, p2.trans p1⟩

omit [Nesting] in
theorem Framed.refl (i : ι) (s : LedgerWorld ι × Ghost ι) : Framed i s s :=
  ⟨.refl s, rfl, fun _ => rfl, fun _ => rfl, Iff.rfl, rfl, rfl⟩

omit [Nesting] in
theorem Framed.trans {i : ι} {s₁ s₂ s₃ : LedgerWorld ι × Ghost ι} (h₁ : Framed i s₁ s₂)
    (h₂ : Framed i s₂ s₃) : Framed i s₁ s₃ where
  evolves := h₁.evolves.trans h₂.evolves
  lock := h₂.lock.trans h₁.lock
  bytes h := (h₂.bytes (by rw [h₁.lock]; exact h)).trans (h₁.bytes h)
  held h := (h₂.held (by rw [h₁.lock]; exact h)).trans (h₁.held h)
  writer := h₂.writer.trans h₁.writer
  passed := h₂.passed.trans h₁.passed
  acked := h₂.acked.trans h₁.acked

/-- The rely of a thread; a bystander sees the ledger evolve. -/
def ledgerRely : Option ι → LedgerWorld ι × Ghost ι → LedgerWorld ι × Ghost ι → Prop
  | some i => Framed i
  | none => Evolves

/-! ## Steps -/

omit [Nesting] in
theorem NoWrites.append {l l' : List (ι × Event ledgerSig)} (h : NoWrites (l ++ l')) :
    NoWrites l ∧ NoWrites l' :=
  ⟨fun e he => h e (List.mem_append_left _ he), fun e he => h e (List.mem_append_right _ he)⟩

/-- A step that leaves the bytes alone keeps the ledger settled. -/
theorem Settled.snoc {jobs : ι → Job} {w : LedgerWorld ι} {d : Disk ι} {e : ι × Event ledgerSig}
    (h : Settled jobs w) (hb : d.bytes = w.1.bytes)
    (he : e.2 = synced → ∃ seen, scan d.bytes = .ok seen
      ∧ ∀ n, (jobs e.1).nonce? = some n → n ∈ seen) :
    Settled jobs (d, w.2 ++ [e]) := by
  intro l i l' hl hnw
  cases l' using List.reverseRecOn with
  | nil =>
    obtain ⟨-, he'⟩ := List.append_inj' hl rfl
    obtain rfl : e = (i, synced) := by simpa using he'
    exact he rfl
  | append_singleton l' e' =>
    have hl2 : w.2 ++ [e] = (l ++ (i, synced) :: l') ++ [e'] := by simpa using hl
    obtain ⟨hl3, -⟩ := List.append_inj' hl2 rfl
    obtain ⟨seen, h1, h2⟩ := h l i l' hl3 hnw.append.1
    exact ⟨seen, by rw [← h1]; exact congrArg scan hb, h2⟩

omit [Nesting] in
/-- What a step of `i` that keeps the bytes and the owners gives to everyone else. -/
theorem frames_of_clear {i : ι} {s : LedgerWorld ι × Ghost ι} {d : Disk ι}
    {log : List (ι × Event ledgerSig)} {g : Ghost ι}
    (hb : d.bytes = s.1.1.bytes) (hlocks : ∀ j, j ≠ i → d.locks j = s.1.1.locks j)
    (hown : g.owner = s.2.owner)
    (hwriter : g.writer = s.2.writer ∨ (s.2.writer = some i ∧ g.writer = none))
    (hpassed : ∀ j, j ≠ i → g.passed j = s.2.passed j)
    (hacked : ∀ j, j ≠ i → g.acked j = s.2.acked j)
    (hfrozen : Frozen s → g.passed = s.2.passed) :
    ∀ j, j ≠ some i → ledgerRely j s ((d, log), g) := by
  have hev : Evolves s ((d, log), g) := by
    refine ⟨fun n k h => by rw [hown]; exact h, fun hf => ⟨hb, ?_, hfrozen hf⟩⟩
    rcases hwriter with h | ⟨h, -⟩
    · exact h.trans hf.2
    · rw [hf.2] at h
      exact absurd h (by simp)
  intro j hj
  cases j with
  | none => exact hev
  | some j =>
    have hji : j ≠ i := fun h => hj (congrArg some h)
    refine ⟨hev, hlocks j hji, fun _ => hb, fun _ => hown, ?_, hpassed j hji, hacked j hji⟩
    rcases hwriter with h | ⟨h, h'⟩
    · rw [h]
    · rw [h, h']
      simp [Ne.symm hji]

variable [DecidableEq ι]

/-- Giving up the lock and the append of one thread, as a kill does. -/
theorem inv_setLock_none {jobs : ι → Job} {base : Bytes} {s : LedgerWorld ι × Ghost ι}
    (h : LedgerInv jobs base s)
    (i : ι) : LedgerInv jobs base ((s.1.1.setLock i .none, s.1.2), s.2.clear i) where
  exclusive j k hjk hj := by
    by_cases hki : k = i
    · subst hki
      exact Disk.setLock_locks_self _ _ _
    · have hji : j ≠ i := by
        rintro rfl
        exact absurd hj (by simp)
      dsimp only at hj ⊢
      rw [Disk.setLock_locks_ne _ hji] at hj
      rw [Disk.setLock_locks_ne _ hki]
      exact h.exclusive j k hjk hj
  writer j hj := by
    unfold Ghost.clear at hj
    dsimp only at hj ⊢
    split at hj
    · exact absurd hj (by simp)
    · next hne =>
      have hji : j ≠ i := fun he => hne (he ▸ hj)
      rw [Disk.setLock_locks_ne _ hji]
      exact h.writer j hj
  owned n j hj := h.owned n j hj
  passed j hj := h.passed j hj
  acked j hj := h.acked j hj
  settled := h.settled
  base_le := h.base_le
  durable_le := h.durable_le
  fresh := h.fresh
  survives := h.survives

/-- The discipline of the ledger. -/
def ledgerDiscipline (jobs : ι → Job) (base : Bytes) :
    Discipline (ledgerSem ι).logged (Ghost ι) where
  inv := LedgerInv jobs base
  rely := ledgerRely
  refl i s := by
    cases i with
    | none => exact .refl s
    | some i => exact .refl i s
  trans i s₁ s₂ s₃ h₁ h₂ := by
    cases i with
    | none => exact h₁.trans h₂
    | some i => exact h₁.trans h₂
  exit i s h := by
    refine ⟨s.2.clear i, inv_setLock_none h i, ?_⟩
    refine frames_of_clear rfl (fun j hj => Disk.setLock_locks_ne _ hj _) rfl ?_
      (fun _ _ => rfl) (fun _ _ => rfl) (fun _ => rfl)
    unfold Ghost.clear
    by_cases hw : s.2.writer = some i
    · exact Or.inr ⟨hw, by simp [hw]⟩
    · exact Or.inl (by simp [hw])
  env s w _ h := h.1.elim

section Threads

variable {jobs : ι → Job} {base : Bytes}

/-- A tame call keeps the invariant, once the append of the caller counts as over
where the call may have given up the lock. -/
theorem inv_tame {s : LedgerWorld ι × Ghost ι} (h : LedgerInv jobs base s) {i : ι} {o : LedgerOp}
    {r : ledgerSig.Resp o} (ho : o.isTame = true) (ha : s.1.1.allows i o r) {g : Ghost ι}
    (hown : g.owner = s.2.owner)
    (hwriter : ∀ j, g.writer = some j → s.2.writer = some j
      ∧ (j = i → (s.1.1.next i o r).locks i = .exclusive))
    (hpassed : ∀ j, g.passed j = true → s.2.passed j = true ∨ j = i)
    (hacked : g.acked = s.2.acked) :
    LedgerInv jobs base (((s.1.1.next i o r), s.1.2 ++ [(i, ⟨o, r⟩)]), g) := by
  obtain ⟨hb, hlocks, hself⟩ := Disk.next_tame ho ha
  have hd := Disk.durable_tame ho ha h.durable_le
  refine ⟨?_, ?_, ?_, ?_, ?_, ?_, ?_, ?_, ?_, ?_⟩
  · intro j k hjk hj
    dsimp only at hj ⊢
    by_cases hji : j = i
    · subst hji
      rw [hlocks k (Ne.symm hjk)]
      rcases hself with h1 | h1 | ⟨h1, -⟩ | ⟨-, h1⟩
      · exact h.exclusive j k hjk (h1 ▸ hj)
      · rw [h1] at hj
        exact absurd hj (by simp)
      · rw [h1] at hj
        exact absurd hj (by simp)
      · exact h1 k (Ne.symm hjk)
    · rw [hlocks j hji] at hj
      have hk := h.exclusive j k hjk hj
      by_cases hki : k = i
      · subst hki
        rcases hself with h1 | h1 | ⟨-, h1⟩ | ⟨-, h1⟩
        · rw [h1]
          exact hk
        · exact h1
        · exact absurd hj (h1 j hji)
        · rw [h1 j hji] at hj
          exact absurd hj (by simp)
      · rw [hlocks k hki]
        exact hk
  · intro j hj
    obtain ⟨h1, h2⟩ := hwriter j hj
    by_cases hji : j = i
    · subst hji
      exact h2 rfl
    · dsimp only
      rw [hlocks j hji]
      exact h.writer j h1
  · intro n j hj
    rw [hown] at hj
    dsimp only
    rw [hb]
    exact h.owned n j hj
  · intro j hj
    rcases hpassed j hj with hj | rfl
    · obtain ⟨e, he, hej⟩ := h.passed j hj
      exact ⟨e, List.mem_append_left _ he, hej⟩
    · exact ⟨_, List.mem_append_right _ (List.mem_singleton_self _), rfl⟩
  · intro j hj
    rw [hacked] at hj
    exact List.mem_append_left _ (h.acked j hj)
  · refine h.settled.snoc hb ?_
    intro he
    have : o = .fsync := congrArg Sigma.fst he
    rw [this] at ho
    exact absurd ho (by simp [LedgerOp.isTame])
  · dsimp only
    rw [hd]
    exact h.base_le
  · dsimp only
    rw [hd, hb]
    exact h.durable_le
  · intro n j hj
    rw [hown] at hj
    exact h.fresh n j hj
  · intro j n hj hn
    rw [hacked] at hj
    dsimp only
    rw [hd]
    exact h.survives j n hj hn

/-- Every call of the program is tame. -/
abbrev Tame {α : Type} (p : LedgerProg α) : Prop := p.Calls fun o : LedgerOp => o.isTame = true

/-- A fact about the ghost state that interference and the end of the own append keep. -/
structure Steady (i : ι) (A : Ghost ι → Prop) : Prop where
  framed : ∀ s s' : LedgerWorld ι × Ghost ι, Framed i s s' → A s.2 → A s'.2
  clear : ∀ g, A g → A (g.clear i)

/-- A tame program keeps every steady fact, and ends with no append of its own under way
if it began so. -/
theorem safe_tame {i : ι} {A : Ghost ι → Prop} (hA : Steady i A) {α : Type} {p : LedgerProg α}
    (hp : Tame p) {s : LedgerWorld ι × Ghost ι} (hs : A s.2) :
    (ledgerDiscipline jobs base).Safe i (fun _ s => A s.2) p s := by
  induction p generalizing s with
  | ret a => exact fun s' hr _ => hA.framed s s' hr hs
  | raise e => exact fun s' hr _ => hA.framed s s' hr hs
  | call o k ih =>
    intro s' hr hi
    refine ⟨trivial, fun r ha => ?_⟩
    have hs' := hA.clear _ (hA.framed s s' hr hs)
    obtain ⟨hb, hlocks, hself⟩ := Disk.next_tame hp.1 ha
    by_cases hex : (s'.1.1.next i o r).locks i = .exclusive
    · refine ⟨s'.2, inv_tame hi hp.1 ha rfl (fun j hj => ⟨hj, fun _ => hex⟩)
        (fun j hj => Or.inl hj) rfl, ?_, ih r (hp.2 r) (hA.framed s s' hr hs)⟩
      exact frames_of_clear hb hlocks rfl (Or.inl rfl) (fun _ _ => rfl) (fun _ _ => rfl)
        (fun _ => rfl)
    · refine ⟨s'.2.clear i, inv_tame hi hp.1 ha rfl ?_ (fun j hj => Or.inl hj) rfl, ?_,
        ih r (hp.2 r) hs'⟩
      · intro j hj
        unfold Ghost.clear at hj
        dsimp only at hj
        split at hj
        · exact absurd hj (by simp)
        · next hne => exact ⟨hj, fun hji => absurd (hji ▸ hj) hne⟩
      · refine frames_of_clear hb hlocks rfl ?_ (fun _ _ => rfl) (fun _ _ => rfl) (fun _ => rfl)
        unfold Ghost.clear
        by_cases hw : s'.2.writer = some i
        · exact Or.inr ⟨hw, by simp [hw]⟩
        · exact Or.inl (by simp [hw])

omit [Nesting] in
theorem steady_writer (i : ι) : Steady i fun g : Ghost ι => g.writer ≠ some i where
  framed _ _ h hw := fun h' => hw (h.writer.mp h')
  clear g hw := by
    unfold Ghost.clear
    dsimp only
    rw [if_neg hw]
    exact hw

omit [Nesting] in
theorem tame_ask {o : LedgerOp} (h : o.isTame = true) : Tame (ask o) := .perform h

omit [Nesting] in
theorem tame_release : Tame release :=
  (calls_sys (tame_ask rfl)).handle (fun _ => calls_sys (tame_ask rfl)) fun _ => trivial

theorem tame_scanLocked : Tame scanLocked :=
  (calls_sys (tame_ask rfl)).handle
    (fun _ => .ite trivial ((calls_sys (tame_ask rfl)).handle (fun _ => .ofExcept _)
      fun _ => trivial))
    fun _ => trivial

omit [Nesting] in
theorem tame_syncParent : Tame NonceLedger.syncParent := by
  refine Prog.Calls.handle ?_ (fun _ => trivial) fun _ =>
    (calls_sys (tame_ask rfl)).handle (fun _ => trivial) fun _ => trivial
  have hclose : Tame (sys (ask .closeParent)) := calls_sys (tame_ask rfl)
  refine (calls_sys (tame_ask rfl)).handle (fun _ => ?_) fun _ => trivial
  refine (calls_sys (tame_ask rfl)).handle (fun _ => ?_) fun _ => ?_
  · exact hclose.handle (fun _ => trivial) fun _ => trivial
  · exact hclose.handle (fun _ => trivial) fun _ => trivial

omit [Nesting] in
theorem tame_openExisting : Tame NonceLedger.openExisting :=
  (calls_sys (tame_ask rfl)).handle (fun _ => trivial) fun _ => trivial

omit [Nesting] in
theorem tame_openOrCreate : Tame NonceLedger.openOrCreate :=
  (calls_sys (tame_ask rfl)).handle (fun _ => trivial) fun _ => .ite tame_openExisting trivial

omit [Nesting] in
theorem tame_parentErrors (L : NonceLedger) : Tame L.parentErrors := by
  unfold NonceLedger.parentErrors
  split
  · exact tame_ask rfl
  · trivial

omit [Nesting] in
theorem tame_openDescriptor (L : NonceLedger) (create : Bool) :
    Tame (L.openDescriptor create) := by
  refine (tame_parentErrors L).handle (fun errors => .ite trivial ?_) fun _ => trivial
  refine (Prog.Calls.ite tame_openOrCreate tame_openExisting).handle (fun created => ?_)
    fun _ => trivial
  refine (calls_sys (tame_ask rfl)).handle (fun _ => .ite ?_ (.ite tame_syncParent trivial))
    fun _ => trivial
  exact (calls_sys (tame_ask rfl)).handle (fun _ => trivial) fun _ => trivial

theorem tame_validate (L : NonceLedger) : Tame L.validate := by
  refine (tame_openDescriptor L false).handle (fun _ => .tryFinally ?_ tame_release)
    fun _ => trivial
  exact (calls_sys (tame_ask rfl)).handle
    (fun _ => tame_scanLocked.handle (fun _ => trivial) fun _ => trivial) fun _ => trivial

theorem tame_initializeLedger (L : NonceLedger) : Tame L.initializeLedger := by
  refine (tame_openDescriptor L true).handle (fun _ => .tryFinally ?_ tame_release)
    fun _ => trivial
  refine (calls_sys (tame_ask rfl)).handle (fun _ => ?_) fun _ => trivial
  refine tame_scanLocked.handle (fun _ => ?_) fun _ => trivial
  exact (calls_sys (tame_ask rfl)).handle (fun _ => .ite (calls_sys (tame_ask rfl)) trivial)
    fun _ => trivial

/-! ## `consume` -/

/-- The exclusive lock is held, over the bytes `b`, and no append is under way. -/
def Holds (i : ι) (b : Bytes) (s : LedgerWorld ι × Ghost ι) : Prop :=
  s.1.1.locks i = .exclusive ∧ s.1.1.bytes = b ∧ s.2.writer = none

/-- What the others do leaves the holder of the lock what it holds. -/
theorem Holds.framed {i : ι} {b : Bytes} {s s' : LedgerWorld ι × Ghost ι} (h : Holds i b s)
    (hr : Framed i s s') (hi : LedgerInv jobs base s') : Holds i b s' := by
  obtain ⟨hl, hb, hw⟩ := h
  have hl' : s'.1.1.locks i = .exclusive := by rw [hr.lock, hl]
  refine ⟨hl', by rw [hr.bytes (by rw [hl]; simp), hb], ?_⟩
  cases hw' : s'.2.writer with
  | none => rfl
  | some j =>
    by_cases hji : i = j
    · subst hji
      rw [hr.writer, hw] at hw'
      exact absurd hw' (by simp)
    · have := hi.exclusive i j hji hl'
      rw [hi.writer j hw'] at this
      exact absurd this (by simp)

/-- A call whose answers all lead to `Q`; `Q` has to survive interference. -/
theorem safe_ask {i : ι} {o : LedgerOp} {s : LedgerWorld ι × Ghost ι}
    {Q : Outcome Exn (ledgerSig.Resp o) → LedgerWorld ι × Ghost ι → Prop}
    (hst : ∀ x s s', Framed i s s' → LedgerInv jobs base s' → Q x s → Q x s')
    (h : ∀ s', Framed i s s' → LedgerInv jobs base s' → ∀ r, s'.1.1.allows i o r →
      ∃ g, LedgerInv jobs base ((s'.1.1.next i o r, s'.1.2 ++ [(i, ⟨o, r⟩)]), g)
        ∧ (∀ j, j ≠ some i → ledgerRely j s' ((s'.1.1.next i o r, s'.1.2 ++ [(i, ⟨o, r⟩)]), g))
        ∧ Q (.ok r) ((s'.1.1.next i o r, s'.1.2 ++ [(i, ⟨o, r⟩)]), g)) :
    (ledgerDiscipline jobs base).Safe i Q (ask o) s := by
  intro s' hr hi
  refine ⟨trivial, fun r ha => ?_⟩
  obtain ⟨g, h1, h2, h3⟩ := h s' hr hi r ha
  exact ⟨g, h1, h2, fun s'' hr' hi' => hst _ _ _ hr' hi' h3⟩

/-- What `sys` makes of an answer. -/
def sysOutcome {α : Type} : Sys α → Outcome Exn α
  | .ok a => .ok a
  | .error e => .error (.os e)

/-- An error of the system is passed on; what holds behind a call must be stable under the
others. -/
theorem safe_sys {i : ι} {α : Type} {p : LedgerProg (Sys α)} {s : LedgerWorld ι × Ghost ι}
    {Q : Outcome Exn α → LedgerWorld ι × Ghost ι → Prop}
    (hst : ∀ x s s', Framed i s s' → LedgerInv jobs base s' → Q x s → Q x s')
    (h : (ledgerDiscipline jobs base).Safe i (fun x s => match x with
      | .ok r => Q (sysOutcome r) s
      | .error e => Q (.error e) s) p s) (hi : LedgerInv jobs base s) :
    (ledgerDiscipline jobs base).Safe i Q (sys p) s := by
  refine h.handle hi (fun r s _ hq => ?_) fun e s _ hq s' hr hi' => hst _ _ _ hr hi' hq
  cases r with
  | ok a => exact fun s' hr hi' => hst _ _ _ hr hi' hq
  | error e => exact fun s' hr hi' => hst _ _ _ hr hi' hq

/-- A tame call under the exclusive lock that does not touch the lock. -/
theorem safe_ask_holds {i : ι} {o : LedgerOp} {b : Bytes} {s : LedgerWorld ι × Ghost ι}
    (ho : o.isTame = true) (hl : ∀ w : Disk ι, ∀ r, (w.next i o r).locks = w.locks)
    (hs : Holds i b s) :
    (ledgerDiscipline jobs base).Safe i (fun x s => Holds i b s ∧ ∀ r, x = .ok r →
      ∃ w : Disk ι, w.locks i = .exclusive ∧ w.bytes = b ∧ w.allows i o r) (ask o) s := by
  refine safe_ask (fun x s s' hr hi h => ⟨h.1.framed hr hi, h.2⟩) ?_
  intro s' hr hi r ha
  have h' := hs.framed hr hi
  obtain ⟨hb, hlocks, -⟩ := Disk.next_tame ho ha
  refine ⟨s'.2, inv_tame hi ho ha rfl (fun j hj => ⟨hj, fun hji => ?_⟩)
    (fun j hj => Or.inl hj) rfl, frames_of_clear hb hlocks rfl (Or.inl rfl) (fun _ _ => rfl)
    (fun _ _ => rfl) (fun _ => rfl), ?_, ?_⟩
  · rw [h'.2.2] at hj
    exact absurd hj (by simp)
  · refine ⟨?_, ?_, h'.2.2⟩
    · dsimp only
      rw [hl, h'.1]
    · dsimp only
      rw [hb, h'.2.1]
  · intro r' hr'
    obtain rfl := Except.ok.inj hr'
    exact ⟨s'.1.1, h'.1, h'.2.1, ha⟩

/-- What `consume` ends with: a nonce it consumed is its own, and it answers only
after an accepting scan under the exclusive lock. -/
def Answered (i : ι) (n : PyStr) : Outcome Exn Bool → Ghost ι → Prop
  | .ok true, g => g.owner n = some i ∧ g.passed i = true ∧ g.acked i = true
  | .ok false, g => g.passed i = true
  | .error _, _ => True

omit [Nesting] in
/-- What was answered stays answered. -/
theorem steady_answered (i : ι) (n : PyStr) (x : Outcome Exn Bool) :
    Steady i (Answered i n x : Ghost ι → Prop) where
  framed s s' h ha := by
    match x, ha with
    | .ok true, ha =>
      exact ⟨h.evolves.owner n i ha.1, h.passed.trans ha.2.1, h.acked.trans ha.2.2⟩
    | .ok false, ha => exact h.passed.trans ha
    | .error _, _ => trivial
  clear g ha := by
    match x, ha with
    | .ok true, ha => exact ha
    | .ok false, ha => exact ha
    | .error _, _ => trivial

/-- The exclusive lock is held over an accepted ledger without the nonce. -/
structure Cleared (i : ι) (n : PyStr) (b : Bytes) (s : LedgerWorld ι × Ghost ι) : Prop where
  holds : Holds i b s
  passed : s.2.passed i = true

theorem Cleared.framed {i : ι} {n : PyStr} {b : Bytes} {s s' : LedgerWorld ι × Ghost ι}
    (h : Cleared i n b s) (hr : Framed i s s') (hi : LedgerInv jobs base s') : Cleared i n b s' :=
  ⟨h.holds.framed hr hi, hr.passed.trans h.passed⟩

/-- Under the lock the size is that of the bytes. -/
theorem safe_fstat {i : ι} {b : Bytes} {s : LedgerWorld ι × Ghost ι} (hs : Holds i b s)
    (hi : LedgerInv jobs base s) :
    (ledgerDiscipline jobs base).Safe i (fun x s => Holds i b s ∧ ∀ st : Stat, x = .ok st →
      st.size = b.length) (sys (ask .fstat)) s := by
  refine safe_sys (fun x s s' hr hi h => ⟨h.1.framed hr hi, h.2⟩) ?_ hi
  refine (safe_ask_holds rfl (fun w r => by cases r <;> rfl) hs).mono ?_
  rintro (e | r) s - ⟨h1, h2⟩
  · exact ⟨h1, by simp⟩
  · obtain ⟨w, -, hb, ha⟩ := h2 r rfl
    refine ⟨h1, fun st hst => ?_⟩
    cases r with
    | error e => simp [sysOutcome] at hst
    | ok st' =>
      obtain rfl := Except.ok.inj hst
      rw [← hb]
      exact ha

/-- The scan under the exclusive lock lets only an accepted ledger through. -/
theorem safe_scanLocked {i : ι} {n : PyStr} {b : Bytes} {s : LedgerWorld ι × Ghost ι}
    (hs : Holds i b s) (hi : LedgerInv jobs base s) :
    (ledgerDiscipline jobs base).Safe i (fun x s => ∀ seen, x = .ok seen →
      Cleared i n b s ∧ scan b = .ok seen) scanLocked s := by
  refine (safe_fstat hs hi).handle hi (fun st s hi hpost => ?_)
    fun _ _ _ _ _ _ _ seen hx => absurd hx (by simp)
  obtain ⟨hs, hst⟩ := hpost
  have hsize := hst st rfl
  show (ledgerDiscipline jobs base).Safe i _ (if maxLedgerBytes ≤ st.size then _ else _) s
  split
  · exact fun _ _ _ seen hx => absurd hx (by simp)
  next hlt =>
  intro s' hr hi'
  refine ⟨trivial, fun r ha => ?_⟩
  have h' := hs.framed hr hi'
  have hrel : ∀ g : Ghost ι, g.writer = s'.2.writer → g.owner = s'.2.owner →
      (∀ j, j ≠ i → g.passed j = s'.2.passed j) → g.acked = s'.2.acked →
        (Frozen s' → g.passed = s'.2.passed) →
      LedgerInv jobs base ((s'.1.1.next i .readLedger r, s'.1.2 ++ [(i, ⟨.readLedger, r⟩)]), g)
      ∧ ∀ j, j ≠ some i → ledgerRely j s'
        ((s'.1.1.next i .readLedger r, s'.1.2 ++ [(i, ⟨.readLedger, r⟩)]), g) := by
    intro g hw ho hp hk hf
    obtain ⟨hb, hlocks, -⟩ := Disk.next_tame (o := .readLedger) rfl ha
    refine ⟨inv_tame hi' rfl ha ho (fun j hj => ?_) (fun j hj => ?_) hk,
      frames_of_clear hb hlocks ho (Or.inl hw) hp (fun j _ => by rw [hk]) hf⟩
    · rw [hw, h'.2.2] at hj
      exact absurd hj (by simp)
    · by_cases hji : j = i
      · exact Or.inr hji
      · exact Or.inl (by rw [← hp j hji]; exact hj)
  cases r with
  | error e =>
    obtain ⟨h1, h2⟩ := hrel s'.2 rfl rfl (fun _ _ => rfl) rfl (fun _ => rfl)
    exact ⟨s'.2, h1, h2, fun _ _ _ seen hx => absurd hx (by simp)⟩
  | ok ledger =>
    have hled : ledger = b := by
      rw [← h'.2.1]
      exact ha (by rw [h'.1]; simp)
    subst hled
    have hscan : scan ledger = scanLines ledger.length ledger [] := by
      unfold scan
      rw [if_neg (by omega)]
    cases hsc : scanLines ledger.length ledger [] with
    | error e =>
      obtain ⟨h1, h2⟩ := hrel s'.2 rfl rfl (fun _ _ => rfl) rfl (fun _ => rfl)
      refine ⟨s'.2, h1, h2, ?_⟩
      show (ledgerDiscipline jobs base).Safe i _ (Prog.ofExcept (scanLines ledger.length ledger []))
        _
      rw [hsc]
      exact fun _ _ _ seen hx => absurd hx (by simp)
    | ok seen =>
      -- this read is the step at which `i` passes
      obtain ⟨h1, h2⟩ := hrel { s'.2 with passed := Function.update s'.2.passed i true } rfl rfl
        (fun j hj => Function.update_of_ne hj ..) rfl (fun hf => by
          have := scan_torn hf.1 seen
          rw [h'.2.1, hscan] at this
          exact absurd hsc this)
      refine ⟨_, h1, h2, ?_⟩
      show (ledgerDiscipline jobs base).Safe i _ (Prog.ofExcept (scanLines ledger.length ledger []))
        _
      rw [hsc]
      intro s'' hr' hi'' seen' hx
      obtain rfl := Except.ok.inj hx
      have hc : Cleared i n ledger ((s'.1.1.next i .readLedger (.ok ledger),
          s'.1.2 ++ [(i, ⟨.readLedger, (.ok ledger : Sys Bytes)⟩)]),
          { s'.2 with passed := Function.update s'.2.passed i true }) :=
        ⟨⟨h'.1, h'.2.1, h'.2.2⟩, Function.update_self ..⟩
      exact ⟨hc.framed hr' hi'', hscan.trans hsc⟩

/-- The append of `record` to `b` has come to byte `k`. -/
structure Appending (i : ι) (n : PyStr) (b record : Bytes) (k : Nat)
    (s : LedgerWorld ι × Ghost ι) : Prop where
  lock : s.1.1.locks i = .exclusive
  bytes : s.1.1.bytes = b ++ record.take k
  idle : k = 0 → s.2.writer = none
  busy : 0 < k → s.2.writer = some i
  unowned : k < record.length → s.2.owner n = none
  owned : k = record.length → s.2.owner n = some i
  passed : s.2.passed i = true

theorem Appending.framed {i : ι} {n : PyStr} {b record : Bytes} {k : Nat}
    {s s' : LedgerWorld ι × Ghost ι} (h : Appending i n b record k s) (hr : Framed i s s')
    (hi : LedgerInv jobs base s') : Appending i n b record k s' where
  lock := hr.lock.trans h.lock
  bytes := (hr.bytes (by rw [h.lock]; simp)).trans h.bytes
  idle hk := (Holds.framed ⟨h.lock, h.bytes, h.idle hk⟩ hr hi).2.2
  busy hk := hr.writer.mpr (h.busy hk)
  unowned hk := by rw [hr.held h.lock, h.unowned hk]
  owned hk := hr.evolves.owner n i (h.owned hk)
  passed := hr.passed.trans h.passed

/-- One write of the append: a short one goes on, the last one makes the nonce owned. -/
theorem appending_write {i : ι} {n : PyStr} {b record : Bytes} {k : Nat} {seen : List PyStr}
    (hbase : base <+: b) (hscan : scan b = .ok seen) (hnew : n ∉ seen) (hline : IsLine record)
    (hrec : scanLine record [] = .ok n) {s : LedgerWorld ι × Ghost ι}
    (h : Appending i n b record k s) (hi : LedgerInv jobs base s)
    (hk : k < record.length) {written : Nat} (hw0 : written ≠ 0)
    (hw : written ≤ (record.drop k).length) :
    ∃ g, LedgerInv jobs base ((s.1.1.next i (.write (record.drop k)) (.ok written),
          s.1.2 ++ [(i, ⟨.write (record.drop k), (.ok written : Sys Nat)⟩)]), g)
      ∧ (∀ j, j ≠ some i → ledgerRely j s
          ((s.1.1.next i (.write (record.drop k)) (.ok written),
            s.1.2 ++ [(i, ⟨.write (record.drop k), (.ok written : Sys Nat)⟩)]), g))
      ∧ Appending i n b record (k + written)
          ((s.1.1.next i (.write (record.drop k)) (.ok written),
            s.1.2 ++ [(i, ⟨.write (record.drop k), (.ok written : Sys Nat)⟩)]), g) := by
  rw [List.length_drop] at hw
  have hbytes : (s.1.1.next i (.write (record.drop k)) (.ok written)).bytes
      = b ++ record.take (k + written) := by
    show s.1.1.bytes ++ (record.drop k).take written = _
    rw [h.bytes, List.append_assoc, List.take_add]
  generalize hd : s.1.1.next i (.write (record.drop k)) (.ok written) = d at hbytes ⊢
  have hlocks : d.locks = s.1.1.locks := by rw [← hd]; rfl
  generalize hlog : s.1.2 ++ [(i, (⟨.write (record.drop k), (.ok written : Sys Nat)⟩ :
    Event ledgerSig))] = log
  have hother : ∀ j, j ≠ i → s.1.1.locks j = .none := fun j hj =>
    hi.exclusive i j (Ne.symm hj) h.lock
  -- the owners after the write
  have hown : ∃ owner : PyStr → Option ι,
      (∀ m j, s.2.owner m = some j → owner m = some j)
      ∧ (∀ m j, owner m = some j → s.2.owner m = some j
          ∨ (m = n ∧ k + written = record.length))
      ∧ (k + written < record.length → owner n = none)
      ∧ (k + written = record.length → owner n = some i) := by
    by_cases hend : k + written = record.length
    · refine ⟨Function.update s.2.owner n (some i), fun m j hm => ?_, fun m j hm => ?_,
        fun hlt => by omega, fun _ => Function.update_self ..⟩
      · by_cases hmn : m = n
        · rw [hmn, h.unowned hk] at hm
          exact absurd hm (by simp)
        · rw [Function.update_of_ne hmn]
          exact hm
      · by_cases hmn : m = n
        · exact Or.inr ⟨hmn, hend⟩
        · rw [Function.update_of_ne hmn] at hm
          exact Or.inl hm
    · exact ⟨s.2.owner, fun _ _ hm => hm, fun _ _ hm => Or.inl hm, fun _ => h.unowned hk,
        fun he => absurd he hend⟩
  obtain ⟨owner, hmono, hnew', hun, how⟩ := hown
  have hdur : d.durable = s.1.1.durable := by rw [← hd]; rfl
  have hgrow : s.1.1.bytes <+: d.bytes := by
    rw [h.bytes, hbytes, List.take_add, ← List.append_assoc]
    exact List.prefix_append ..
  refine ⟨⟨owner, some i, s.2.passed, s.2.acked⟩, ⟨?_, ?_, ?_, ?_, ?_, ?_, ?_, ?_, ?_, ?_⟩, ?_,
    ⟨?_, hbytes, ?_, fun _ => rfl,
    hun, how, h.passed⟩⟩
  · intro j l hjl hj
    rw [hlocks] at hj ⊢
    exact hi.exclusive j l hjl hj
  · intro j hj
    obtain rfl := Option.some.inj hj
    dsimp only
    rw [hlocks]
    exact h.lock
  · intro m j hm
    dsimp only
    rcases hnew' m j hm with hm | ⟨rfl, hend⟩
    · have hr := (hi.owned m j hm).append ((record.drop k).take written)
      rw [h.bytes, List.append_assoc, ← List.take_add] at hr
      rw [hbytes]
      exact hr
    · rw [hbytes, hend, List.take_length]
      exact recorded_append_line (scan_ends hscan) hline hrec
  · intro j hj
    obtain ⟨e, he, hej⟩ := hi.passed j hj
    exact ⟨e, by rw [← hlog]; exact List.mem_append_left _ he, hej⟩
  · intro j hj
    have := hi.acked j hj
    dsimp only
    rw [← hlog]
    exact List.mem_append_left _ this
  · -- a log that ends with a write is not settled
    intro l j l' hl hnw
    dsimp only at hl
    rw [← hlog] at hl
    cases l' using List.reverseRecOn with
    | nil =>
      obtain ⟨-, he⟩ := List.append_inj' hl rfl
      have := congrArg (fun e : List (ι × Event ledgerSig) => e.map fun x => x.2.1) he
      simp [synced] at this
    | append_singleton l' e' =>
      have hl2 : s.1.2 ++ [(i, (⟨.write (record.drop k), (.ok written : Sys Nat)⟩ :
        Event ledgerSig))] = (l ++ (j, synced) :: l') ++ [e'] := by simpa using hl
      obtain ⟨-, he⟩ := List.append_inj' hl2 rfl
      obtain rfl : _ = e' := by simpa using he
      exact absurd rfl (hnw.append.2 _ (List.mem_singleton_self _) _)
  · dsimp only
    rw [hdur]
    exact hi.base_le
  · dsimp only
    rw [hdur]
    exact hi.durable_le.trans hgrow
  · intro m j hm
    rcases hnew' m j hm with hm | ⟨rfl, -⟩
    · exact hi.fresh m j hm
    · -- what the ledger began with is part of what was scanned
      obtain ⟨t, rfl⟩ := hbase
      exact fun hr => hnew (scan_recorded hscan (hr.append t))
  · intro j m hj hm
    dsimp only
    rw [hdur]
    exact hi.survives j m hj hm
  · have hev : Evolves s ((d, log), ⟨owner, some i, s.2.passed, s.2.acked⟩) := by
      refine ⟨hmono, fun hf => ?_⟩
      -- the ledger was accepted or the append was under way, so it was not frozen
      by_cases hk0 : k = 0
      · subst hk0
        have hb : s.1.1.bytes = b := by rw [h.bytes, List.take_zero, List.append_nil]
        exact absurd hscan (scan_torn (hb ▸ hf.1) seen)
      · have hbusy := h.busy (by omega)
        rw [hf.2] at hbusy
        exact absurd hbusy (by simp)
    intro j hj
    cases j with
    | none => exact hev
    | some j =>
      have hji : j ≠ i := fun he => hj (congrArg some he)
      refine ⟨hev, by dsimp only; rw [hlocks], fun hne => absurd (hother j hji) hne,
        fun hex => ?_, ?_, rfl, rfl⟩
      · rw [hother j hji] at hex
        exact absurd hex (by simp)
      · constructor
        · intro he
          exact absurd (Option.some.inj he).symm hji
        · intro he
          have := hi.writer j he
          rw [hother j hji] at this
          exact absurd this (by simp)
  · dsimp only
    rw [hlocks]
    exact h.lock
  · intro h0
    omega

/-- The loop of `write` keeps what the discipline asks of an append: the ledger is what it was with
a prefix of the record behind it. The induction is on the bytes that are left. -/
theorem safe_writeAllLoop {i : ι} {n : PyStr} {b record : Bytes} {seen : List PyStr}
    (hbase : base <+: b) (hscan : scan b = .ok seen) (hnew : n ∉ seen) (hline : IsLine record)
    (hrec : scanLine record [] = .ok n) :
    ∀ (fuel k : Nat) (s : LedgerWorld ι × Ghost ι), record.length - k ≤ fuel →
      k ≤ record.length → Appending i n b record k s → LedgerInv jobs base s →
      (ledgerDiscipline jobs base).Safe i
        (fun x s => x = .ok () → Appending i n b record record.length s)
        (writeAllLoop fuel (record.drop k)) s
  | 0, k, s, hf, hk, h, hi => by
    obtain rfl : k = record.length := by omega
    exact fun s' hr hi' _ => h.framed hr hi'
  | fuel + 1, k, s, hf, hk, h, hi => by
    rw [writeAllLoop]
    split
    · next hnil =>
      obtain rfl : k = record.length := by
        rw [List.drop_eq_nil_iff] at hnil
        omega
      exact fun s' hr hi' _ => h.framed hr hi'
    next hne =>
    have hlt : k < record.length := by
      rw [List.drop_eq_nil_iff] at hne
      omega
    intro s' hr hi'
    refine ⟨trivial, fun r ha => ?_⟩
    have h' := h.framed hr hi'
    cases r with
    | error e =>
      -- a failed write leaves the bytes alone
      refine ⟨s'.2, ⟨hi'.exclusive, hi'.writer, hi'.owned, ?_,
        fun j hj => List.mem_append_left _ (hi'.acked j hj), ?_, hi'.base_le,
        hi'.durable_le, hi'.fresh, hi'.survives⟩, ?_,
        fun _ _ _ hx => absurd hx (by simp)⟩
      · intro j hj
        obtain ⟨e', he, hej⟩ := hi'.passed j hj
        exact ⟨e', List.mem_append_left _ he, hej⟩
      · exact hi'.settled.snoc rfl fun he => absurd (congrArg Sigma.fst he) (by simp [synced])
      · exact frames_of_clear rfl (fun _ _ => rfl) rfl (Or.inl rfl) (fun _ _ => rfl)
          (fun _ _ => rfl)
          (fun _ => rfl)
    | ok written =>
      by_cases hw0 : written = 0
      · -- a write of nothing makes the append fail
        subst hw0
        have hb : (s'.1.1.next i (.write (record.drop k)) (.ok (0 : Nat))).bytes
            = s'.1.1.bytes := by
          show s'.1.1.bytes ++ (record.drop k).take 0 = _
          rw [List.take_zero, List.append_nil]
        refine ⟨s'.2, ⟨hi'.exclusive, hi'.writer, ?_, ?_,
          fun j hj => List.mem_append_left _ (hi'.acked j hj), ?_, hi'.base_le, ?_,
          hi'.fresh, hi'.survives⟩, ?_,
          fun _ _ _ hx => absurd hx (by simp)⟩
        · intro m j hm
          have := hi'.owned m j hm
          rw [← hb] at this
          exact this
        · intro j hj
          obtain ⟨e', he, hej⟩ := hi'.passed j hj
          exact ⟨e', List.mem_append_left _ he, hej⟩
        · exact hi'.settled.snoc hb fun he => absurd (congrArg Sigma.fst he) (by simp [synced])
        · have := hi'.durable_le
          rw [← hb] at this
          exact this
        · exact frames_of_clear hb (fun _ _ => rfl) rfl (Or.inl rfl) (fun _ _ => rfl)
            (fun _ _ => rfl) (fun _ => rfl)
      · obtain ⟨g, h1, h2, h3⟩ := appending_write hbase hscan hnew hline hrec h' hi' hlt hw0 ha.2
        refine ⟨g, h1, h2, ?_⟩
        have hle : written ≤ (record.drop k).length := ha.2
        rw [List.length_drop] at hle
        show (ledgerDiscipline jobs base).Safe i _ (if written = 0 then _
          else writeAllLoop fuel ((record.drop k).drop written)) _
        rw [if_neg hw0, List.drop_drop]
        exact safe_writeAllLoop hbase hscan hnew hline hrec fuel (k + written) _ (by omega)
          (by omega) h3 h1

/-- The sync after the append: the ledger is settled with the nonce in it. -/
theorem safe_fsync {i : ι} {n : PyStr} {b record : Bytes} {seen : List PyStr}
    (hjob : (jobs i).nonce? = some n) (hscan : scan (b ++ record) = .ok (n :: seen))
    {s : LedgerWorld ι × Ghost ι} (h : Appending i n b record record.length s)
    (hi : LedgerInv jobs base s) :
    (ledgerDiscipline jobs base).Safe i (fun x s => x = .ok () → Answered i n (.ok true) s.2)
      (sys (ask .fsync)) s := by
  refine safe_sys ?_ ?_ hi
  · intro x s s' hr _ hq hx
    exact (steady_answered i n (.ok true)).framed s s' hr (hq hx)
  refine safe_ask ?_ ?_
  · rintro (e | r) s s' hr _ hq
    · exact fun hx => absurd hx (by simp)
    · exact fun hx => (steady_answered i n (.ok true)).framed s s' hr (hq hx)
  intro s' hr hi' r _
  have h' := h.framed hr hi'
  have hb : (s'.1.1.next i .fsync r).bytes = s'.1.1.bytes := by cases r <;> rfl
  have hl : (s'.1.1.next i .fsync r).locks = s'.1.1.locks := by cases r <;> rfl
  -- a failed sync is not acknowledged
  have hack : ∃ acked : ι → Bool, (∀ j, j ≠ i → acked j = s'.2.acked j)
      ∧ (∀ j, acked j = true →
        (j, synced) ∈ s'.1.2 ++ [(i, (⟨.fsync, r⟩ : Event ledgerSig))])
      ∧ (r = .ok () → acked i = true)
      ∧ ∀ j m, acked j = true → (jobs j).nonce? = some m →
        Recorded m (s'.1.1.next i .fsync r).durable := by
    cases r with
    | error e =>
      exact ⟨s'.2.acked, fun _ _ => rfl, fun j hj => List.mem_append_left _ (hi'.acked j hj),
        fun hx => absurd hx (by simp), hi'.survives⟩
    | ok u =>
      refine ⟨Function.update s'.2.acked i true, fun j hj => Function.update_of_ne hj ..,
        fun j hj => ?_, fun _ => Function.update_self .., fun j m hj hm => ?_⟩
      · by_cases hji : j = i
        · subst hji
          exact List.mem_append_right _ (List.mem_singleton_self _)
        · rw [Function.update_of_ne hji] at hj
          exact List.mem_append_left _ (hi'.acked j hj)
      · show Recorded m s'.1.1.bytes
        by_cases hji : j = i
        · subst hji
          rw [hjob] at hm
          obtain rfl := Option.some.inj hm
          exact hi'.owned n j (h'.owned rfl)
        · rw [Function.update_of_ne hji] at hj
          obtain ⟨t, ht⟩ := hi'.durable_le
          rw [← ht]
          exact (hi'.survives j m hj hm).append t
  have hdur : s'.1.1.durable <+: (s'.1.1.next i .fsync r).durable
      ∧ (s'.1.1.next i .fsync r).durable <+: s'.1.1.bytes := by
    cases r with
    | error e => exact ⟨List.prefix_refl _, hi'.durable_le⟩
    | ok u => exact ⟨hi'.durable_le, List.prefix_refl _⟩
  obtain ⟨acked, hothers, hlog, hself, hsurv⟩ := hack
  refine ⟨{ s'.2 with acked := acked }, ⟨?_, ?_, ?_, ?_, hlog, ?_, hi'.base_le.trans hdur.1,
    ?_, hi'.fresh, hsurv⟩, ?_, ?_⟩
  · dsimp only
    rw [hl]
    exact hi'.exclusive
  · dsimp only
    rw [hl]
    exact hi'.writer
  · dsimp only
    rw [hb]
    exact hi'.owned
  · intro j hj
    obtain ⟨e', he, hej⟩ := hi'.passed j hj
    exact ⟨e', List.mem_append_left _ he, hej⟩
  · refine hi'.settled.snoc hb fun _ => ⟨n :: seen, ?_, fun m hm => ?_⟩
    · rw [hb, h'.bytes, List.take_length, hscan]
    · rw [hjob] at hm
      obtain rfl := Option.some.inj hm
      exact List.mem_cons_self ..
  · dsimp only
    rw [hb]
    exact hdur.2
  · exact frames_of_clear hb (fun j _ => by rw [hl]) rfl (Or.inl rfl) (fun _ _ => rfl) hothers
      (fun _ => rfl)
  · cases r with
    | error e => exact fun hx => absurd hx (by simp [sysOutcome])
    | ok u => exact fun _ => ⟨h'.owned rfl, h'.passed, hself rfl⟩

/-- The exclusive lock, over whatever the ledger holds. -/
theorem safe_lockExclusive {i : ι} {s : LedgerWorld ι × Ghost ι} (hs : s.2.writer ≠ some i)
    (hi : LedgerInv jobs base s) :
    (ledgerDiscipline jobs base).Safe i (fun x s => x = .ok () → ∃ b, Holds i b s)
      (sys (ask (.flock .exclusive))) s := by
  have hst : ∀ (x : Outcome Exn Unit) (s s' : LedgerWorld ι × Ghost ι), Framed i s s' →
      LedgerInv jobs base s' → (x = .ok () → ∃ b, Holds i b s) → x = .ok () →
        ∃ b, Holds i b s' := by
    intro x s s' hr hi hq hx
    obtain ⟨b, hb⟩ := hq hx
    exact ⟨b, hb.framed hr hi⟩
  refine safe_sys hst (safe_ask ?_ ?_) hi
  · rintro (e | r) s s' hr hi' hq
    · exact fun hx => absurd hx (by simp)
    · exact hst _ s s' hr hi' hq
  intro s' hr hi' r ha
  have hw : s'.2.writer ≠ some i := fun h => hs (hr.writer.mp h)
  obtain ⟨hb, hlocks, -⟩ := Disk.next_tame (o := .flock .exclusive) rfl ha
  refine ⟨s'.2, inv_tame hi' rfl ha rfl (fun j hj => ⟨hj, fun hji => absurd (hji ▸ hj) hw⟩)
    (fun j hj => Or.inl hj) rfl, frames_of_clear hb hlocks rfl (Or.inl rfl) (fun _ _ => rfl)
    (fun _ _ => rfl) (fun _ => rfl), ?_⟩
  cases r with
  | error e => exact fun hx => absurd hx (by simp [sysOutcome])
  | ok u =>
    refine fun _ => ⟨s'.1.1.bytes, Disk.setLock_locks_self s'.1.1 i .exclusive, rfl, ?_⟩
    cases hwr : s'.2.writer with
    | none => rfl
    | some j =>
      by_cases hji : j = i
      · exact absurd (hji ▸ hwr) hw
      · have := hi'.writer j hwr
        rw [(ha : ∀ j, j ≠ i → s'.1.1.locks j = .none) j hji] at this
        exact absurd this (by simp)

/-- The append and the sync make a new nonce the caller's own. -/
theorem safe_appendRecord {i : ι} {nonce : PyStr} {b record : Bytes} {seen : List PyStr}
    (hjob : (jobs i).nonce? = some nonce) (hscan : scan b = .ok seen) (hnew : nonce ∉ seen)
    (hline : IsLine record) (hrec : ∀ seen, nonce ∉ seen → scanLine record seen = .ok nonce)
    (hcap : b.length + record.length < maxLedgerBytes) {s : LedgerWorld ι × Ghost ι}
    (hc : Cleared i nonce b s) (hi : LedgerInv jobs base s) :
    (ledgerDiscipline jobs base).Safe i (fun x s => Answered i nonce x s.2)
    (appendRecord record) s := by
  have hpos : 0 < record.length := List.length_pos_iff.mpr hline.ne_nil
  have hstart : Appending i nonce b record 0 s := by
    refine ⟨hc.holds.1, by rw [List.take_zero, List.append_nil]; exact hc.holds.2.1,
      fun _ => hc.holds.2.2, fun h => absurd h (by omega), fun _ => ?_, fun h => by omega,
      hc.passed⟩
    -- an owned nonce is recorded, so the scan would have returned it
    cases hown : s.2.owner nonce with
    | none => rfl
    | some j =>
      have := hi.owned nonce j hown
      rw [hc.holds.2.1] at this
      exact absurd (scan_recorded hscan this) hnew
  have hbase : base <+: b := by
    rw [← hc.holds.2.1]
    exact hi.base_le.trans hi.durable_le
  refine (safe_writeAllLoop hbase hscan hnew hline (hrec [] (by simp)) record.length 0 s
    (by omega) (by omega) hstart hi).handle hi (fun u s hi hx => ?_) fun _ _ _ _ _ _ _ => trivial
  refine (safe_fsync hjob (scan_append_record hscan hline (hrec seen hnew) hcap) (hx rfl)
    hi).handle hi (fun u s hi hx => ?_) fun _ _ _ _ _ _ _ => trivial
  exact fun s' hr _ => (steady_answered i nonce (.ok true)).framed s s' hr (hx rfl)

/-- Under the lock, a nonce that the scan has not found is committed once. -/
theorem safe_commitRecord {i : ι} {nonce : PyStr} {b record : Bytes}
    (hjob : (jobs i).nonce? = some nonce) (hline : IsLine record)
    (hrec : ∀ seen, nonce ∉ seen → scanLine record seen = .ok nonce)
    {s : LedgerWorld ι × Ghost ι} (hs : Holds i b s) (hi : LedgerInv jobs base s) :
    (ledgerDiscipline jobs base).Safe i (fun x s => Answered i nonce x s.2)
      (commitRecord nonce record) s := by
  refine (safe_fstat hs hi).handle hi (fun st s hi hpost => ?_) fun _ _ _ _ _ _ _ => trivial
  obtain ⟨hs, hst⟩ := hpost
  show (ledgerDiscipline jobs base).Safe i _ (if maxLedgerBytes ≤ st.size + record.length then _
    else _) s
  split
  · exact fun _ _ _ => trivial
  next hcap =>
  rw [hst st rfl] at hcap
  refine (safe_scanLocked (n := nonce) hs hi).handle hi (fun seen s hi hscan => ?_)
    fun _ _ _ _ _ _ _ => trivial
  obtain ⟨hc, hscan⟩ := hscan seen rfl
  show (ledgerDiscipline jobs base).Safe i _ (if nonce ∈ seen then _ else appendRecord record) s
  split
  · exact fun s' hr _ => (steady_answered i nonce (.ok false)).framed s s' hr hc.passed
  · next hnew => exact safe_appendRecord hjob hscan hnew hline hrec (by omega) hc hi

/-- The rest of `consume` from an encoded record. -/
theorem safe_encoded {i : ι} {nonce : PyStr} {b : Bytes} {x : Except Exn Bytes}
    (hjob : (jobs i).nonce? = some nonce)
    (hx : ∃ record, x = .ok record ∧ IsLine record ∧ record.length ≤ maxLedgerRecordBytes
      ∧ ∀ seen, nonce ∉ seen → scanLine record seen = .ok nonce)
    {s : LedgerWorld ι × Ghost ι} (hs : Holds i b s) (hi : LedgerInv jobs base s) :
    (ledgerDiscipline jobs base).Safe i (fun x s => Answered i nonce x s.2)
      ((Prog.ofExcept x).handle (commitRecord nonce) .raise) s := by
  obtain ⟨record, rfl, hline, -, hrec⟩ := hx
  exact safe_commitRecord hjob hline hrec hs hi

/-- **The body of `consume`** answers `True` only for a nonce it has made its own. -/
theorem safe_consumeBody {i : ι} {nonce receiptSha256 operationPayloadSha256 : PyStr}
    (hn : validNonce nonce = true) (hr : isSha256 receiptSha256 = true)
    (ho : isSha256 operationPayloadSha256 = true) (hjob : (jobs i).nonce? = some nonce)
    {s : LedgerWorld ι × Ghost ι} (hs : s.2.writer ≠ some i) (hi : LedgerInv jobs base s) :
    (ledgerDiscipline jobs base).Safe i (fun x s => Answered i nonce x s.2)
      (consumeBody nonce receiptSha256 operationPayloadSha256) s := by
  refine (safe_lockExclusive hs hi).handle hi (fun u s hi hx => ?_)
    fun _ _ _ _ _ _ _ => trivial
  obtain ⟨b, hs⟩ := hx rfl
  exact (safe_ask_holds (o := .now) rfl (fun _ _ => rfl) hs).handle hi
    (fun consumedAt s hi hx => safe_encoded hjob (encodeRecord_spec consumedAt hn hr ho) hx.1 hi)
    fun _ _ _ _ _ _ _ => trivial

/-- A whole call of the ledger keeps the discipline: take the lock, scan, commit, and give the lock
back however it ends. -/
theorem safe_consume (L : NonceLedger) {i : ι}
    {nonce receiptSha256 operationPayloadSha256 : PyStr} (hn : validNonce nonce = true)
    (hr : isSha256 receiptSha256 = true) (ho : isSha256 operationPayloadSha256 = true)
    (hjob : (jobs i).nonce? = some nonce) {s : LedgerWorld ι × Ghost ι}
    (hs : s.2.writer ≠ some i) (hi : LedgerInv jobs base s) :
    (ledgerDiscipline jobs base).Safe i (fun x s => Answered i nonce x s.2)
      (L.consume nonce receiptSha256 operationPayloadSha256) s := by
  refine (safe_tame (steady_writer i) (tame_openDescriptor L false) hs).handle hi
    (fun u s hi hs => ?_) fun _ _ _ _ _ _ _ => trivial
  refine (safe_consumeBody hn hr ho hjob hs hi).handle hi (fun c s hi hx => ?_)
    fun e s hi hx => ?_
  · -- what was answered survives the release
    refine (safe_tame (steady_answered i nonce (.ok c)) tame_release hx).handle hi
      (fun u s hi hx => ?_) fun _ _ _ _ _ _ _ => trivial
    exact fun s' hr _ => (steady_answered i nonce (.ok c)).framed s s' hr hx
  · refine (safe_tame (steady_answered i nonce (.error e)) tame_release hx).handle hi
      (fun _ _ _ _ _ _ _ => trivial) fun _ _ _ _ _ _ _ => trivial

/-! ## Requests -/

omit [Nesting] in
/-- The fields of a consume request have passed `_valid_nonce_fields`. -/
theorem request?_consume {m : List (PyStr × Json)}
    {nonce receiptSha256 operationPayloadSha256 : PyStr}
    (h : request? m = some (.consume nonce receiptSha256 operationPayloadSha256)) :
    validNonce nonce = true ∧ isSha256 receiptSha256 = true
      ∧ isSha256 operationPayloadSha256 = true := by
  unfold request? at h
  split at h
  · exact absurd h (by simp)
  split at h
  · exact absurd h (by simp)
  split at h
  · exact absurd h (by simp)
  next hv =>
  split at h
  · next hn hr ho =>
    simp only [Option.some.injEq, Request.consume.injEq] at h
    obtain ⟨rfl, rfl, rfl⟩ := h
    simp only [validNonceFields, hn, hr, ho, strWith, Bool.not_eq_true, Bool.not_eq_false',
      Bool.and_eq_true] at hv
    exact ⟨hv.1.1, hv.1.2, hv.2⟩
  · exact absurd h (by simp)

/-- What a job ends with. -/
def JobPost (job : Job) (i : ι) (x : Outcome Exn Bytes) (g : Ghost ι) : Prop :=
  (x = .ok consumed → g.acked i = true ∧ ∃ n, job.nonce? = some n ∧ g.owner n = some i)
    ∧ (∀ n answer, job.nonce? = some n → x = .ok answer → g.passed i = true)

theorem steady_jobPost (job : Job) (i : ι) (x : Outcome Exn Bytes) :
    Steady i (JobPost job i x : Ghost ι → Prop) where
  framed s s' h hp := by
    refine ⟨fun hx => ?_, fun n a hn hx => h.passed.trans (hp.2 n a hn hx)⟩
    obtain ⟨hack, n, hn, ho⟩ := hp.1 hx
    exact ⟨h.acked.trans hack, n, hn, h.evolves.owner n i ho⟩
  clear g hp := hp

/-- A job that consumes nothing and whose answer is not `CONSUMED`. -/
theorem safe_job_tame {job : Job} {i : ι} (hjob : job.nonce? = none) {p : LedgerProg Bytes}
    {s : LedgerWorld ι × Ghost ι} {α : Type} {q : LedgerProg α} {answer : Bytes}
    (hp : p = q.handle (fun _ => .ret answer) .raise) (hq : Tame q) (hne : answer ≠ consumed)
    (hi : LedgerInv jobs base s) :
    (ledgerDiscipline jobs base).Safe i (fun x s => JobPost job i x s.2) p s := by
  subst hp
  refine (safe_tame (A := fun _ => True) ⟨fun _ _ _ _ => trivial, fun _ _ => trivial⟩ hq
    trivial).handle hi (fun u s _ _ s' _ _ => ?_) fun _ _ _ _ s' _ _ =>
      ⟨fun hx => absurd hx (by simp), fun _ _ _ hx => absurd hx (by simp)⟩
  refine ⟨fun hx => absurd (Except.ok.inj hx) hne, fun n _ hn => ?_⟩
  rw [hjob] at hn
  exact absurd hn (by simp)

/-- **Every job is safe.** -/
theorem safe_job (L : NonceLedger) (i : ι) {s : LedgerWorld ι × Ghost ι}
    (hs : s.2.writer ≠ some i) (hi : LedgerInv jobs base s) :
    (ledgerDiscipline jobs base).Safe i (fun x s => JobPost (jobs i) i x s.2)
    ((jobs i).prog L) s := by
  cases hj : jobs i with
  | initializeLedger =>
    exact safe_job_tame (p := Job.prog L .initializeLedger) rfl rfl (tame_initializeLedger L)
      (by decide) hi
  | validate =>
    exact safe_job_tame (p := Job.prog L .validate) rfl rfl (tame_validate L) (by decide) hi
  | request raw =>
    show (ledgerDiscipline jobs base).Safe i _ (Prog.handle (Prog.ofExcept (parseRequest raw))
      (fun m => answer L (request? m)) .raise) s
    cases hp : parseRequest raw with
    | error e =>
      exact fun s' _ _ => ⟨fun hx => absurd hx (by simp), fun _ _ _ hx => absurd hx (by simp)⟩
    | ok m =>
      show (ledgerDiscipline jobs base).Safe i _ (answer L (request? m)) s
      have hnone : ∀ r, request? m = r → (∀ a b c, r ≠ some (.consume a b c)) →
          (Job.request raw).nonce? = none := by
        intro r hr hc
        unfold Job.nonce?
        simp only [hp, hr]
      cases hreq : request? m with
      | none =>
        have hn := hnone none hreq (by simp)
        refine fun s' _ _ => ⟨fun hx => absurd (Except.ok.inj hx) (by decide), fun n _ h => ?_⟩
        rw [hn] at h
        exact absurd h (by simp)
      | some r =>
        cases r with
        | health =>
          exact safe_job_tame (hnone _ hreq (by simp)) rfl (tame_validate L) (by decide) hi
        | consume nonce receiptSha256 operationPayloadSha256 =>
          obtain ⟨hn, hr, ho⟩ := request?_consume hreq
          have hjob : (jobs i).nonce? = some nonce := by
            rw [hj]
            unfold Job.nonce?
            simp only [hp, hreq]
          refine (safe_consume L hn hr ho hjob hs hi).handle hi (fun c s hi hx => ?_)
            fun _ _ _ _ s' _ _ =>
              ⟨fun hx => absurd hx (by simp), fun _ _ _ hx => absurd hx (by simp)⟩
          have hpost : JobPost (Job.request raw) i (.ok (if c then consumed else alreadyConsumed))
              s.2 := by
            rw [hj] at hjob
            cases c with
            | true => exact ⟨fun _ => ⟨hx.2.2, nonce, hjob, hx.1⟩, fun _ _ _ _ => hx.2.1⟩
            | false =>
              exact ⟨fun h => absurd (Except.ok.inj h) (by decide), fun _ _ _ _ => hx⟩
          exact fun s' hr _ => (steady_jobPost _ i _).framed s s' hr hpost

omit [DecidableEq ι] in
/-- The state a run starts in. -/
theorem inv_start (L : NonceLedger) (jobs : ι → Job) (ledger : Option Bytes) :
    LedgerInv jobs (ledger.getD []) ((startConf L jobs ledger).world,
      ⟨fun _ => none, none, fun _ => false, fun _ => false⟩) where
  exclusive _ _ _ h := absurd h (by simp [startConf])
  writer _ h := absurd h (by simp)
  owned _ _ h := absurd h (by simp)
  passed _ h := absurd h (by simp)
  acked _ h := absurd h (by simp)
  settled l i l' h := absurd h (by simp [startConf])
  base_le := List.prefix_refl _
  durable_le := List.prefix_refl _
  fresh _ _ h := absurd h (by simp)
  survives _ _ h := absurd h (by simp)

/-- What holds in every state a run reaches. -/
theorem reachable_inv {L : NonceLedger} {ledger : Option Bytes}
    {c : Conf ι (LedgerWorld ι) ledgerSig Exn Bytes}
    (h : (ledgerSem ι).logged.Reach (startConf L jobs ledger) c) :
    ∃ g, LedgerInv jobs (ledger.getD []) (c.world, g)
      ∧ (ledgerDiscipline jobs (ledger.getD [])).AllSafe
        (fun i x s => JobPost (jobs i) i x s.2) c.threads (c.world, g) := by
  obtain ⟨g, h1, h2, -⟩ := Discipline.run h (D := ledgerDiscipline jobs (ledger.getD []))
    (Q := fun i x s => JobPost (jobs i) i x s.2) (inv_start L jobs ledger) (by
      intro i p hp
      obtain rfl := Option.some.inj hp
      exact safe_job L i (by simp) (inv_start L jobs ledger))
  exact ⟨g, h1, h2⟩

end Threads

/-! ## The guarantee -/

/-- **At most once, under any partial failure.** In every run of any requests on one
ledger:
* a nonce is answered `CONSUMED` to at most one request, and that request has synced it;
* from the sync of a consumption until the next append, whoever makes it, the ledger is
  accepted, with the nonce in it;
* once the tail is torn and no request holds the exclusive lock, a consume request that
  has not begun is never answered, whatever happens afterwards. -/
theorem ledger_at_most_once (L : NonceLedger) (jobs : ι → Job) (ledger : Option Bytes)
    (c : Conf ι (LedgerWorld ι) ledgerSig Exn Bytes)
    (h : (ledgerSem ι).logged.Reach (startConf L jobs ledger) c) :
    (∀ i j, c.threads i = some (.ret consumed) → c.threads j = some (.ret consumed) →
      (jobs i).nonce? = (jobs j).nonce? → i = j)
    ∧ (∀ i, c.threads i = some (.ret consumed) → (i, synced) ∈ c.world.2)
    ∧ (∀ i l l', c.world.2 = l ++ (i, synced) :: l' → NoWrites l' →
      ∃ seen, scan c.world.1.bytes = .ok seen ∧ ∀ n, (jobs i).nonce? = some n → n ∈ seen)
    ∧ (Torn c.world.1.bytes → (∀ i, c.world.1.locks i ≠ .exclusive) →
      ∀ c', (ledgerSem ι).logged.Reach c c' → ∀ i, (∀ e ∈ c.world.2, e.1 ≠ i) →
        ∀ n answer, (jobs i).nonce? = some n → c'.threads i ≠ some (.ret answer)) := by
  obtain ⟨g, hi, hs⟩ := reachable_inv h
  refine ⟨?_, fun i hti => hi.acked i ((hs.ended hi hti).1 rfl).1,
    fun i l l' hl hnw => hi.settled l i l' hl hnw, ?_⟩
  · intro i j hti htj hn
    obtain ⟨-, n, hni, hoi⟩ := (hs.ended hi hti).1 rfl
    obtain ⟨-, m, hmj, hoj⟩ := (hs.ended hi htj).1 rfl
    rw [hni, hmj] at hn
    obtain rfl := Option.some.inj hn
    rw [hoi] at hoj
    exact Option.some.inj hoj
  · intro htorn hfree c' hreach i hfresh n answer hn hret
    have hfrozen : Frozen (c.world, g) := by
      refine ⟨htorn, ?_⟩
      cases hw : g.writer with
      | none => rfl
      | some j => exact absurd (hi.writer j hw) (hfree j)
    obtain ⟨g', hi', hs', hev⟩ := Discipline.run hreach (D := ledgerDiscipline jobs _) hi hs
    have hpass := (hs'.ended hi' hret).2 n answer hn rfl
    rw [((hev : Evolves _ _).frozen hfrozen).2.2] at hpass
    obtain ⟨e, he, hei⟩ := hi.passed i hpass
    exact hfresh e he hei

end Runs

variable [DecidableEq ι]

/-! ## Runs that can be played -/

instance [Fintype ι] (i : ι) (w : LedgerWorld ι) (o : LedgerOp) (r : ledgerSig.Resp o) :
    Decidable ((ledgerSem ι).logged.allows i w o r) :=
  inferInstanceAs (Decidable (w.1.allows i o r))

/-- What a finished request was answered. -/
def answerOf : Option (LedgerProg Bytes) → Option Bytes
  | some (.ret answer) => some answer
  | _ => none

theorem answerOf_eq {p : Option (LedgerProg Bytes)} {answer : Bytes}
    (h : answerOf p = some answer) : p = some (.ret answer) := by
  match p, h with
  | some (.ret a), h => exact congrArg (fun a => some (Prog.ret a)) (Option.some.inj h)

/-- The time on the Broker's clock in the runs below. -/
def sampleTime : Instant := ⟨63000000000000000, by decide⟩

/-- `n` calls of one request, none of which fails. -/
def goodMoves (i : ι) (n : Nat) : List (Move ι (LedgerWorld ι) ledgerSig) :=
  List.replicate n (.act i fun w => w.1.good 0 sampleTime)

/-- A request line for a nonce. -/
def consumeLine (nonce : PyStr) : Bytes :=
  (requestLine nonce (List.replicate 64 (digitCp 0)) (List.replicate 64 (digitCp 1))).getD []

/-- Two requests for one nonce, one after the other: only the first consumes it. -/
theorem ledger_at_most_once_two :
    ∃ c : Conf (Fin 2) (LedgerWorld (Fin 2)) ledgerSig Exn Bytes,
      (ledgerSem (Fin 2)).logged.play (goodMoves 0 12 ++ goodMoves 1 10)
        (startConf ⟨0, true⟩ (fun _ => .request (consumeLine (lit "nonce-000000"))) (some []))
        = some c
      ∧ answerOf (c.threads 0) = some consumed ∧ answerOf (c.threads 1) = some alreadyConsumed
      ∧ ∀ i, c.threads i = some (.ret consumed) → i = 0 := by
  have hplay : (((ledgerSem (Fin 2)).logged.play (goodMoves 0 12 ++ goodMoves 1 10)
      (startConf ⟨0, true⟩ (fun _ => .request (consumeLine (lit "nonce-000000")))
        (some []))).map fun c => (answerOf (c.threads 0), answerOf (c.threads 1)))
      = some (some consumed, some alreadyConsumed) := by decide +kernel
  obtain ⟨c, hc, hprops⟩ := Option.map_eq_some_iff.mp hplay
  obtain ⟨h0, h1⟩ := Prod.mk.inj hprops
  refine ⟨c, hc, h0, h1, fun i hi => ?_⟩
  exact (ledger_at_most_once _ _ _ c (Sem.play_reach hc)).1 i 0 hi (answerOf_eq h0) rfl

end SddGov.Broker
