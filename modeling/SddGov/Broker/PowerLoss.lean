import SddGov.Broker.AtMostOnce

/-!
# Single use across power losses

A power loss keeps the synced bytes of the ledger, and the ledger itself when
its directory entry has been synced; what else survives is left open. Between
two losses any jobs run in any interleaving, so a lifetime of the Broker is a
sequence of runs (`Lifetime`), each from the ledger the last loss left.

The parent directory is synced only by the start that created the file. When
that start fails after the creation, the next one finds the file and serves
requests over an entry no one has synced: `power_loss_forgets` is such a
lifetime. When every start that creates the file goes on to sync the parent,
every consumed nonce stays recorded and is never consumed again
(`single_use_survives`).
-/

namespace SddGov.Broker

open SddGov.Effect SddGov.Python

variable {ι : Type} [DecidableEq ι]

/-- What a power loss can leave of a ledger. -/
inductive PowerLoss (w : Disk ι) : Option Bytes → Prop
  | kept (tail : Bytes) (h : w.ledger ≠ none) : PowerLoss w (some (w.durable ++ tail))
  | lost (h : w.ledger = none ∨ w.entryDurable = false) : PowerLoss w none

section Runs

variable [Nesting]

/-- The nonces answered `CONSUMED` in a run. -/
def answeredIn (jobs : ι → Job) (c : Conf ι (LedgerWorld ι) ledgerSig Exn Bytes) : Set PyStr :=
  { n | ∃ i, c.threads i = some (.ret consumed) ∧ (jobs i).nonce? = some n }

/-- A lifetime of the Broker whose runs satisfy `P`: the ledger after the last power loss
and the nonces answered `CONSUMED` so far. -/
inductive Lifetime (ι : Type) [DecidableEq ι] (L : NonceLedger)
    (P : List (ι × Event ledgerSig) → Prop) : Option Bytes → Set PyStr → Prop
  | first (ledger : Option Bytes) : Lifetime ι L P ledger ∅
  | epoch {ledger ledger' : Option Bytes} {answered : Set PyStr} (jobs : ι → Job)
      {c : Conf ι (LedgerWorld ι) ledgerSig Exn Bytes} (before : Lifetime ι L P ledger answered)
      (run : (ledgerSem ι).logged.Reach (startConf L jobs ledger) c) (hP : P c.world.2)
      (loss : PowerLoss c.world.1 ledger') :
      Lifetime ι L P ledger' (answered ∪ answeredIn jobs c)

/-- The event of creating the ledger. -/
def created : Event ledgerSig := ⟨.createLedger, (.ok () : Sys Unit)⟩

/-- The event of syncing its parent directory. -/
def parentSynced : Event ledgerSig := ⟨.fsyncParent, (.ok () : Sys Unit)⟩

def isCreated : Event ledgerSig → Bool
  | ⟨.createLedger, .ok _⟩ => true
  | _ => false

def isParentSynced : Event ledgerSig → Bool
  | ⟨.fsyncParent, .ok _⟩ => true
  | _ => false

/-- Every start that creates the ledger goes on to sync the parent directory. -/
def creatorsSync : List (ι × Event ledgerSig) → Bool
  | [] => true
  | e :: log =>
    (!isCreated e.2 || log.any fun e' => e'.1 == e.1 && isParentSynced e'.2) && creatorsSync log

omit [Nesting] in
theorem eq_parentSynced {e : Event ledgerSig} (h : isParentSynced e = true) : e = parentSynced := by
  obtain ⟨o, r⟩ := e
  cases o with
  | fsyncParent =>
    cases r with
    | ok u => rfl
    | error e => exact absurd h (by simp [isParentSynced])
  | _ => exact absurd h (by simp [isParentSynced])

omit [Nesting] in
/-- Where creators sync, the one that has created the file has synced its directory. -/
theorem mem_of_creatorsSync {l l' : List (ι × Event ledgerSig)} {i : ι}
    (h : creatorsSync (l ++ (i, created) :: l') = true) : (i, parentSynced) ∈ l' := by
  induction l with
  | nil =>
    rw [List.nil_append, creatorsSync, Bool.and_eq_true] at h
    have hany := h.1
    rw [show isCreated created = true from rfl, Bool.not_true, Bool.false_or,
      List.any_eq_true] at hany
    obtain ⟨⟨j, e⟩, hmem, he⟩ := hany
    simp only [Bool.and_eq_true, beq_iff_eq] at he
    obtain ⟨rfl, he⟩ := he
    rw [eq_parentSynced he] at hmem
    exact hmem
  | cons e l ih =>
    rw [List.cons_append, creatorsSync, Bool.and_eq_true] at h
    exact ih h.2

/-! ## The directory entry -/

/-- An entry that is not durable was created in this run and not synced since. -/
def EntryInv (w : LedgerWorld ι) : Prop :=
  w.1.ledger = none ∨ w.1.entryDurable = true
    ∨ ∃ l i l', w.2 = l ++ (i, created) :: l' ∧ ∀ j, (j, parentSynced) ∉ l'

omit [Nesting] in
/-- What one call does to the entry. -/
theorem entry_next {i : ι} {w : LedgerWorld ι} {o : LedgerOp} {r : ledgerSig.Resp o}
    (h : EntryInv w) (ha : w.1.allows i o r) :
    EntryInv (w.1.next i o r, w.2 ++ [(i, ⟨o, r⟩)]) ∧
      (w.1.ledger ≠ none → (w.1.next i o r).ledger ≠ none) := by
  -- an event that touches neither the entry nor its sync
  have hkeep : ∀ d : Disk ι, (w.1.ledger = none ↔ d.ledger = none) →
      d.entryDurable = w.1.entryDurable → (⟨o, r⟩ : Event ledgerSig) ≠ parentSynced →
      EntryInv (d, w.2 ++ [(i, ⟨o, r⟩)]) ∧ (w.1.ledger ≠ none → d.ledger ≠ none) := by
    intro d hn he hne
    refine ⟨?_, fun h0 h1 => h0 (hn.mpr h1)⟩
    rcases h with h | h | ⟨l, j, l', hl, hnot⟩
    · exact Or.inl (hn.mp h)
    · exact Or.inr (Or.inl (he.trans h))
    · refine Or.inr (Or.inr ⟨l, j, l' ++ [(i, ⟨o, r⟩)], by simp [hl], fun k hk => ?_⟩)
      rcases List.mem_append.mp hk with hk | hk
      · exact hnot k hk
      · exact hne (congrArg Prod.snd (List.mem_singleton.mp hk)).symm
  cases o with
  | createLedger =>
    cases r with
    | error e => exact hkeep _ Iff.rfl rfl (by simp [parentSynced])
    | ok u =>
      exact ⟨Or.inr (Or.inr ⟨w.2, i, [], rfl, by simp⟩), fun _ => by simp [Disk.next]⟩
  | fsyncParent =>
    cases r with
    | error e => exact hkeep _ Iff.rfl rfl (by simp [parentSynced])
    | ok u => exact ⟨Or.inr (Or.inl rfl), id⟩
  | write chunk =>
    cases r with
    | error e => exact hkeep _ Iff.rfl rfl (by simp [parentSynced])
    | ok n =>
      have hne : w.1.ledger ≠ none := ha.1
      exact hkeep _ (by simp [hne, Disk.next]) rfl (by simp [parentSynced])
  | flock mode => cases r <;> exact hkeep _ Iff.rfl rfl (by simp [parentSynced])
  | fsync => cases r <;> exact hkeep _ Iff.rfl rfl (by simp [parentSynced])
  | _ => exact hkeep _ Iff.rfl rfl (by simp [parentSynced])

/-- What a whole run does to the entry. -/
theorem entry_run {L : NonceLedger} {jobs : ι → Job} {ledger : Option Bytes}
    {c : Conf ι (LedgerWorld ι) ledgerSig Exn Bytes}
    (h : (ledgerSem ι).logged.Reach (startConf L jobs ledger) c) :
    EntryInv c.world ∧ (ledger ≠ none → c.world.1.ledger ≠ none) := by
  induction h with
  | refl => exact ⟨Or.inr (Or.inl rfl), id⟩
  | tail _ hstep ih =>
    cases hstep with
    | act r hp ha =>
      obtain ⟨h1, h2⟩ := entry_next ih.1 ha
      exact ⟨h1, fun hl => h2 (ih.2 hl)⟩
    | kill i => exact ih
    | env he => exact he.1.elim

/-! ## Lifetimes -/

theorem Recorded.ne_nil {n : PyStr} {s : Bytes} (h : Recorded n s) : s ≠ [] := by
  obtain ⟨pre, line, post, rfl, -, hl, -⟩ := h
  simp [hl.ne_nil]

/-- A recorded nonce survives a loss when the creators have synced the entry. -/
theorem recorded_after_loss {w : LedgerWorld ι} {ledger' : Option Bytes} {n : PyStr}
    (hentry : EntryInv w) (hsync : creatorsSync w.2 = true) (hpre : w.1.durable <+: w.1.bytes)
    (hn : Recorded n w.1.durable) (hloss : PowerLoss w.1 ledger') :
    Recorded n (ledger'.getD []) := by
  cases hloss with
  | kept tail _ => exact hn.append tail
  | lost h =>
    have hne : w.1.ledger ≠ none := by
      intro h0
      have hb : w.1.bytes = [] := by simp [Disk.bytes, h0]
      rw [hb, List.prefix_nil] at hpre
      exact hn.ne_nil hpre
    have hd : w.1.entryDurable = false := h.resolve_left hne
    rcases hentry with h | h | ⟨l, i, l', hl, hnot⟩
    · exact absurd h hne
    · rw [hd] at h
      exact absurd h (by simp)
    · rw [hl] at hsync
      exact absurd (mem_of_creatorsSync hsync) (hnot i)

/-- In one run: nothing that was recorded at its start is consumed again, and what is
consumed is recorded in the bytes that survive. -/
theorem run_consumed {L : NonceLedger} {jobs : ι → Job} {ledger : Option Bytes}
    {c : Conf ι (LedgerWorld ι) ledgerSig Exn Bytes}
    (h : (ledgerSem ι).logged.Reach (startConf L jobs ledger) c) :
    c.world.1.durable <+: c.world.1.bytes ∧ ledger.getD [] <+: c.world.1.durable
      ∧ ∀ n ∈ answeredIn jobs c, ¬Recorded n (ledger.getD []) ∧ Recorded n c.world.1.durable := by
  obtain ⟨g, hi, hs⟩ := reachable_inv h
  refine ⟨hi.durable_le, hi.base_le, ?_⟩
  rintro n ⟨i, hti, hn⟩
  obtain ⟨hack, m, hm, ho⟩ := (hs.ended hi hti).1 rfl
  rw [hn] at hm
  obtain rfl := Option.some.inj hm
  exact ⟨hi.fresh n i ho, hi.survives i n hack hn⟩

/-- **Single use survives power losses** when every start that creates the ledger goes on
to sync its parent directory: every nonce answered `CONSUMED` is recorded in the ledger
each loss leaves, and no later run answers `CONSUMED` for it. -/
theorem single_use_survives (L : NonceLedger) (ledger : Option Bytes) (answered : Set PyStr)
    (h : Lifetime ι L (fun log => creatorsSync log = true) ledger answered) :
    ∀ n ∈ answered, Recorded n (ledger.getD [])
      ∧ ∀ (jobs : ι → Job) (c : Conf ι (LedgerWorld ι) ledgerSig Exn Bytes),
        (ledgerSem ι).logged.Reach (startConf L jobs ledger) c → n ∉ answeredIn jobs c := by
  have key : ∀ n ∈ answered, Recorded n (ledger.getD []) := by
    induction h with
    | first ledger => exact fun n hn => absurd hn (by simp)
    | epoch jobs before run hP loss ih =>
      obtain ⟨hdur, hbase, hcons⟩ := run_consumed run
      have hentry := (entry_run run).1
      rintro n (hn | hn)
      · obtain ⟨t, ht⟩ := hbase
        have hr := (ih n hn).append t
        rw [ht] at hr
        exact recorded_after_loss hentry hP hdur hr loss
      · exact recorded_after_loss hentry hP hdur (hcons n hn).2 loss
  exact fun n hn => ⟨key n hn, fun jobs c hrun hc => ((run_consumed hrun).2.2 n hc).1 (key n hn)⟩

end Runs

/-- A start and a request. -/
def plainJobs : Fin 2 → Job :=
  ![.initializeLedger, .request (consumeLine (lit "nonce-000000"))]

/-- The start creates the ledger and syncs its parent, the request is answered, and the
loss leaves half a line after the synced bytes: the nonce is still recorded. -/
theorem single_use_survives_once :
    ∃ c : Conf (Fin 2) (LedgerWorld (Fin 2)) ledgerSig Exn Bytes,
      (ledgerSem (Fin 2)).logged.play (goodMoves (0 : Fin 2) 12 ++ goodMoves 1 12)
        (startConf ⟨0, true⟩ plainJobs none) = some c
      ∧ answerOf (c.threads 1) = some consumed
      ∧ Recorded (lit "nonce-000000") (c.world.1.durable ++ [byte 0x7B]) := by
  have hplay : (((ledgerSem (Fin 2)).logged.play (goodMoves (0 : Fin 2) 12 ++ goodMoves 1 12)
      (startConf ⟨0, true⟩ plainJobs none)).map fun c =>
        (answerOf (c.threads 1), creatorsSync c.world.2, c.world.1.ledger.isSome))
      = some (some consumed, true, true) := by decide +kernel
  have hnonce : (plainJobs 1).nonce? = some (lit "nonce-000000") := by decide +kernel
  obtain ⟨c, hc, hprops⟩ := Option.map_eq_some_iff.mp hplay
  obtain ⟨ha, hprops⟩ := Prod.mk.inj hprops
  obtain ⟨hsync, hsome⟩ := Prod.mk.inj hprops
  have hcons : lit "nonce-000000" ∈ answeredIn plainJobs c := ⟨1, answerOf_eq ha, hnonce⟩
  refine ⟨c, hc, ha, ?_⟩
  exact (single_use_survives _ _ _ (.epoch plainJobs (.first none) (Sem.play_reach hc) hsync
    (.kept [byte 0x7B] (Option.isSome_iff_ne_none.mp hsome))) _ (Or.inr hcons)).1

/-- A start whose sync of the parent fails, a start that finds the file, and a request. -/
def forgetfulJobs : Fin 3 → Job :=
  ![.initializeLedger, .initializeLedger, .request (consumeLine (lit "nonce-000000"))]

/-- The first start fails at `fsync` of the parent; the second one and the request succeed. -/
def forgetfulSchedule : List (Move (Fin 3) (LedgerWorld (Fin 3)) ledgerSig) :=
  List.replicate 7 (.act 0 fun w => fun
    | .fsyncParent => .error .other
    | o => w.1.good 0 sampleTime o)
  ++ goodMoves (1 : Fin 3) 10 ++ goodMoves 2 12

/-- Without the condition the ledger can be forgotten with its directory entry: the nonce
is answered `CONSUMED`, the loss leaves no ledger, and the next run answers `CONSUMED`
for it again. -/
theorem power_loss_forgets :
    ∃ answered : Set PyStr, Lifetime (Fin 3) ⟨0, true⟩ (fun _ => True) none answered
      ∧ lit "nonce-000000" ∈ answered ∧ ¬Recorded (lit "nonce-000000") []
      ∧ ∃ c : Conf (Fin 3) (LedgerWorld (Fin 3)) ledgerSig Exn Bytes,
        (ledgerSem (Fin 3)).logged.Reach (startConf ⟨0, true⟩ forgetfulJobs none) c
          ∧ lit "nonce-000000" ∈ answeredIn forgetfulJobs c := by
  have hplay : (((ledgerSem (Fin 3)).logged.play forgetfulSchedule
      (startConf ⟨0, true⟩ forgetfulJobs none)).map fun c =>
        (answerOf (c.threads 2), c.world.1.entryDurable)) = some (some consumed, false) := by
    decide +kernel
  have hnonce : (forgetfulJobs 2).nonce? = some (lit "nonce-000000") := by decide +kernel
  obtain ⟨c, hc, hprops⟩ := Option.map_eq_some_iff.mp hplay
  obtain ⟨ha, hd⟩ := Prod.mk.inj hprops
  have hrun := Sem.play_reach hc
  have hcons : lit "nonce-000000" ∈ answeredIn forgetfulJobs c := ⟨2, answerOf_eq ha, hnonce⟩
  exact ⟨_, .epoch forgetfulJobs (.first none) hrun trivial (.lost (Or.inr hd)),
    Or.inr hcons, fun h => h.ne_nil rfl, c, hrun, hcons⟩

end SddGov.Broker
