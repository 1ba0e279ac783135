import SddGov.Autonomy.ProductApproval
import SddGov.Autonomy.SingleUse
import SddGov.Effect.Undone
import SddGov.Effect.Grows
import SddGov.Governance.Locked

/-!
# The decision store

Four programs write `decisions.json`, each under the lock of the store:
`record_decision` and the two imports add a row, a consumption ends one. Ids and
nonces are checked against the rows that were read under the lock, so every
run of any number of calls keeps them apart (`decision_store_invariant`), and a
row is only ever changed by the consumption of its approval. What a program
checks before it takes the lock plays no part in that.
-/

namespace SddGov.Autonomy

open SddGov.Effect SddGov.Python SddGov.Governance

/-! ## Reading and writing the contract -/

/-- What the reader takes as a row of the store. -/
theorem decisionRow?_eq {row : Json} {m : Members} :
    decisionRow? row = some m ↔ row = .obj m ∧ hasText m "decision_id" = true := by
  cases row with
  | obj m' =>
    have hdef : decisionRow? (.obj m') = if hasText m' "decision_id" then some m' else none := rfl
    rw [hdef]
    by_cases htext : hasText m' "decision_id" = true
    · rw [if_pos htext]
      constructor
      · intro h
        obtain rfl := Option.some.inj h
        exact ⟨rfl, htext⟩
      · rintro ⟨h, -⟩
        rw [Json.obj.inj h]
    · rw [if_neg htext]
      constructor
      · intro h
        exact absurd h (by simp)
      · rintro ⟨h, htext'⟩
        exact absurd (Json.obj.inj h ▸ htext') htext
  | _ => simp [decisionRow?]

/-- The rows of the store, all or none of them. -/
theorem decisionRows?_eq {rows : List Json} {decisions : List Members} :
    decisionRows? rows = some decisions
      ↔ rows = decisions.map .obj ∧ ∀ row ∈ decisions, hasText row "decision_id" = true := by
  induction rows generalizing decisions with
  | nil =>
    unfold decisionRows?
    constructor
    · intro h
      obtain rfl := Option.some.inj h
      simp
    · rintro ⟨h, -⟩
      rw [List.map_eq_nil_iff.mp h.symm]
  | cons row rows ih =>
    constructor
    · intro h
      unfold decisionRows? at h
      split at h
      · next m ms hrow hrows =>
        obtain rfl := Option.some.inj h
        obtain ⟨rfl, htext⟩ := decisionRow?_eq.mp hrow
        obtain ⟨rfl, htexts⟩ := ih.mp hrows
        exact ⟨rfl, List.forall_mem_cons.mpr ⟨htext, htexts⟩⟩
      · exact absurd h (by simp)
    · rintro ⟨h, htexts⟩
      cases decisions with
      | nil => exact absurd h (by simp)
      | cons m ms =>
        obtain ⟨rfl, hrest⟩ := List.cons.inj h
        obtain ⟨htext, htexts⟩ := List.forall_mem_cons.mp htexts
        unfold decisionRows?
        rw [decisionRow?_eq.mpr ⟨rfl, htext⟩, ih.mpr ⟨hrest, htexts⟩]

/-- What a store file holds. -/
structure StoreOf (content : Json) (store : DecisionStore) : Prop where
  members : content = .obj store.members
  version : pyEq (get (lit "schema_version") store.members) (.str (lit "1.0")) = true
  fields : keysEq store.members [lit "schema_version", lit "decisions"] = true
  rows : get (lit "decisions") store.members = .arr (store.decisions.map .obj)
  texts : ∀ row ∈ store.decisions, hasText row "decision_id" = true

/-- What the reader takes as a store; each list has the rows the writers put there. -/
theorem decisionStore?_eq {content : Json} {store : DecisionStore} :
    decisionStore? content = some store ↔ StoreOf content store := by
  constructor
  · intro h
    unfold decisionStore? at h
    split at h
    · next m =>
      split at h
      · next hcontract =>
        obtain ⟨hversion, hfields⟩ := Bool.and_eq_true_iff.mp hcontract
        split at h
        · next rows hrows =>
          obtain ⟨decisions, hdecisions, rfl⟩ := Option.map_eq_some_iff.mp h
          obtain ⟨rfl, htexts⟩ := decisionRows?_eq.mp hdecisions
          exact ⟨rfl, hversion, hfields, hrows, htexts⟩
        · exact absurd h (by simp)
      · exact absurd h (by simp)
    · exact absurd h (by simp)
  · rintro ⟨rfl, hversion, hfields, hrows, htexts⟩
    unfold decisionStore?
    dsimp only
    rw [hversion, hfields, hrows, Bool.and_self, if_pos rfl]
    dsimp only
    rw [decisionRows?_eq.mpr ⟨rfl, htexts⟩]
    rfl

theorem hasKey_of_keysEq {m : Members} {names : List PyStr} (h : keysEq m names = true)
    {key : PyStr}
    (hkey : key ∈ names) : hasKey key m = true := by
  unfold keysEq at h
  rw [Bool.and_eq_true, List.all_eq_true, List.all_eq_true] at h
  have hin := h.2 key hkey
  unfold hasKey
  rw [lookup_isSome_iff]
  simpa using hin

/-- The store with other rows is a store. -/
theorem decisionStore?_withRows {content : Json} {store : DecisionStore}
    (h : decisionStore? content = some store) {rows : List Members}
    (hrows : ∀ row ∈ rows, hasText row "decision_id" = true) :
    ∃ store', decisionStore? (store.withRows rows) = some store' ∧ store'.decisions = rows := by
  have hstore := decisionStore?_eq.mp h
  have hkey : hasKey (lit "decisions") store.members = true :=
    hasKey_of_keysEq hstore.fields (by simp)
  have hne : lit "schema_version" ≠ lit "decisions" := by simp
  refine ⟨⟨setMember (lit "decisions") (.arr (rows.map .obj)) store.members, rows⟩,
    decisionStore?_eq.mpr ⟨rfl, ?_, ?_, get_setMember .., hrows⟩, rfl⟩
  · dsimp only
    rw [get_setMember_ne _ _ hne]
    exact hstore.version
  · dsimp only
    unfold keysEq
    rw [keys_setMember hkey]
    exact hstore.fields

/-! ## What becomes of the rows -/

/-- The rows of a store file. -/
def storeRows (content : Option Json) : List Members :=
  match decisionStore? (content.getD noDecisions) with
  | some store => store.decisions
  | none => []

/-- Two rows that both have a nonce have different ones. -/
def NoncesApart (a b : Members) : Prop :=
  lookup (lit "approval_nonce") a = lookup (lit "approval_nonce") b →
    lookup (lit "approval_nonce") a = none

/-- A store whose ids and whose nonces are pairwise distinct. -/
structure GoodDecisions (content : Option Json) : Prop where
  contract : (decisionStore? (content.getD noDecisions)).isSome = true
  ids : Distinct (get (lit "decision_id")) (storeRows content)
  nonces : (storeRows content).Pairwise NoncesApart

/-- An L3 approval that has not been consumed. -/
structure Unconsumed (row : Members) : Prop where
  risk : get (lit "risk_level") row = .str (lit "L3")
  status : get (lit "status") row = .str (lit "approved")
  consumedAt : get (lit "consumed_at") row = .null

/-- What a row can become: `consumed_at` and `status` are set, and nothing else is touched. -/
inductive DecisionStep : Members → Members → Prop
  | same (row : Members) : DecisionStep row row
  | consumed {row : Members} (h : Unconsumed row) (consumedAt : Instant) :
    DecisionStep row (consumedRow row consumedAt)

theorem lookup_consumedRow {row : Members} {consumedAt : Instant} {key : PyStr}
    (hstatus : key ≠ lit "status") (hat : key ≠ lit "consumed_at") :
    lookup key (consumedRow row consumedAt) = lookup key row := by
  unfold consumedRow
  rw [lookup_setMember_ne _ _ hstatus, lookup_setMember_ne _ _ hat]

/-- A consumed row is not consumed again. -/
theorem not_unconsumed (row : Members) (consumedAt : Instant) :
    ¬Unconsumed (consumedRow row consumedAt) := by
  intro h
  have hstatus := h.status
  unfold consumedRow at hstatus
  rw [get_setMember] at hstatus
  exact absurd (Json.str.inj hstatus) (by simp)

theorem DecisionStep.trans {a b c : Members} (h : DecisionStep a b) (h' : DecisionStep b c) :
    DecisionStep a c := by
  cases h with
  | same => exact h'
  | consumed h at' =>
    cases h' with
    | same => exact .consumed h at'
    | consumed h' _ => exact absurd h' (not_unconsumed _ _)

/-! ## Replacing one row -/

section Replace

variable {p : Members → Bool} {row row' : Members} {rows : List Members}

/-- Replacing the first row that is found by a later one of its kind lets the rows grow. -/
theorem grows_replaceFirst {R : Members → Members → Prop} (hR : ∀ a, R a a)
    (hfind : rows.find? p = some row) (h : R row row') :
    Grows R rows (replaceFirst p row' rows) := by
  induction rows with
  | nil => exact .nil _
  | cons a rows ih =>
    unfold replaceFirst
    by_cases hp : p a = true
    · rw [List.find?_cons_of_pos hp] at hfind
      rw [if_pos hp, Option.some.inj hfind]
      exact .cons h (Grows.refl hR rows)
    · rw [List.find?_cons_of_neg hp] at hfind
      rw [if_neg hp]
      exact .cons (hR a) (ih hfind)

/-- What the new row has in common with the old one, the rows have in common as well. -/
theorem map_replaceFirst {κ : Type} {key : Members → κ} (hfind : rows.find? p = some row)
    (hkey : key row' = key row) : (replaceFirst p row' rows).map key = rows.map key := by
  induction rows with
  | nil => rfl
  | cons a rows ih =>
    unfold replaceFirst
    by_cases hp : p a = true
    · rw [List.find?_cons_of_pos hp] at hfind
      rw [if_pos hp, List.map_cons, List.map_cons, hkey, Option.some.inj hfind]
    · rw [List.find?_cons_of_neg hp] at hfind
      rw [if_neg hp, List.map_cons, List.map_cons, ih hfind]

theorem mem_replaceFirst {x : Members} (h : x ∈ replaceFirst p row' rows) :
    x = row' ∨ x ∈ rows := by
  induction rows with
  | nil => exact absurd h (by simp [replaceFirst])
  | cons a rows ih =>
    unfold replaceFirst at h
    split at h
    · exact (List.mem_cons.mp h).imp_right (List.mem_cons_of_mem _)
    · rcases List.mem_cons.mp h with rfl | h
      · exact .inr (List.mem_cons_self ..)
      · exact (ih h).imp_right (List.mem_cons_of_mem _)

end Replace

/-! ## The contract of the file -/

/-- The file stays a good store, and its rows grow. -/
def decisionContract : Contract (Option Json) Unit where
  good σ := GoodDecisions σ.1
  evolves σ σ' := Grows DecisionStep (storeRows σ.1) (storeRows σ'.1)
  refl _ := Grows.refl DecisionStep.same _
  trans _ _ _ h h' := h.trans (R := DecisionStep) (fun _ _ _ => DecisionStep.trans) h'

/-- The file holds this store. -/
def HasStore (store : DecisionStore) (σ : Option Json × Unit) : Prop :=
  decisionStore? (σ.1.getD noDecisions) = some store

theorem HasStore.rows {store : DecisionStore} {σ : Option Json × Unit} (h : HasStore store σ) :
    storeRows σ.1 = store.decisions := by
  unfold HasStore at h
  unfold storeRows
  rw [h]

/-- The step of a write: other rows in the place of those that were read. -/
theorem good_withRows {store : DecisionStore} {σ : Option Json × Unit} (hstore : HasStore store σ)
    {rows : List Members} (htexts : ∀ row ∈ rows, hasText row "decision_id" = true)
    (hids : Distinct (get (lit "decision_id")) rows) (hnonces : rows.Pairwise NoncesApart)
    (hgrows : Grows DecisionStep store.decisions rows) :
    decisionContract.good (some (store.withRows rows), ())
      ∧ decisionContract.evolves σ (some (store.withRows rows), ()) := by
  obtain ⟨store', hstore', rfl⟩ := decisionStore?_withRows hstore htexts
  have hrows : storeRows (some (store.withRows store'.decisions)) = store'.decisions := by
    unfold storeRows
    rw [Option.getD_some, hstore']
  refine ⟨⟨?_, ?_, ?_⟩, ?_⟩
  · rw [Option.getD_some, hstore']
    rfl
  · rw [hrows]
    exact hids
  · rw [hrows]
    exact hnonces
  · show Grows DecisionStep (storeRows σ.1) (storeRows _)
    rw [hstore.rows, hrows]
    exact hgrows

/-! ## Calls apart from the store -/

section Apart

variable {C : Crypto}

/-- The call is not about the store or its lock. -/
abbrev Apart (o : HostOp) : Prop := ¬Touches .decisions .decisions o

theorem calls_raising {α : Type} {P : HostOp → Prop} {p : HostProg (Except Exn α)} (h : p.Calls P) :
    (raising p).Calls P :=
  h.bind fun x => .ofExcept x

theorem apart_readJson {file : StateFile} {default : Json} : (readJson file default).Calls Apart :=
  (calls_raising (.perform id)).bind fun _ => trivial

theorem apart_decisionStore : decisionStore.Calls Apart :=
  apart_readJson.bind fun data => .ofExcept (checkStore data)

theorem apart_withSnapshot {α : Type} {root : SnapshotRoot} {body : HostProg α}
    (h : body.Calls Apart) : (withSnapshot root body).Calls Apart := by
  refine (calls_raising (.perform id)).bind fun _ => ?_
  refine h.handle (fun a => ?_) fun e => ?_
  · exact (calls_raising (.perform id)).bind fun _ => trivial
  · exact (Prog.Calls.perform id).bind fun _ => trivial

theorem apart_trustedApprover {approverId : PyStr} : (trustedApprover approverId).Calls Apart :=
  (calls_raising (.perform id)).bind fun data => .ofExcept (trustedApproverIn data approverId)

theorem apart_verifyOperationEnvelope {envelope : Json} :
    (verifyOperationEnvelope C envelope).Calls Apart := by
  refine (Prog.Calls.ofExcept _).bind fun ⟨receipt, signature, sha256, issuedAt, expiresAt⟩ => ?_
  refine (Prog.Calls.perform id).bind fun current => ?_
  generalize checkWindow current issuedAt expiresAt = window
  refine (Prog.Calls.ofExcept window).bind fun _ => ?_
  refine apart_trustedApprover.bind fun publicKey => ?_
  exact (Prog.Calls.ofExcept _).bind fun _ => trivial

theorem apart_requireMatchingRuntimeContext {payload : Json} :
    (requireMatchingRuntimeContext payload).Calls Apart := by
  refine (calls_raising (.perform id)).bind fun data => ?_
  exact (Prog.Calls.ofExcept _).bind fun _ => .ofExcept _

theorem apart_noneOnValueError {α : Type} {p : HostProg α} (h : p.Calls Apart) :
    (noneOnValueError p).Calls Apart :=
  h.handle (fun _ => trivial) fun e => by cases e <;> trivial

theorem apart_falseOnOsError {p : HostProg Bool} (h : p.Calls Apart) :
    (falseOnOsError p).Calls Apart :=
  h.handle (fun _ => trivial) fun e => by cases e <;> trivial

theorem apart_checkParents (depth count : Nat) : (checkParents depth count).Calls Apart := by
  induction count generalizing depth with
  | zero => trivial
  | succ count ih =>
    refine (calls_sys (.perform id)).bind fun metadata => ?_
    exact .ite (ih (depth + 1)) trivial

theorem apart_brokerReachable : brokerReachable.Calls Apart := by
  refine (Prog.Calls.perform id).bind fun host => ?_
  cases host with
  | none => trivial
  | some platform =>
    refine (apart_falseOnOsError (apart_checkParents 0 _)).bind fun parents => ?_
    refine .ite (apart_falseOnOsError ?_) trivial
    refine (calls_sys (.perform id)).bind fun metadata => ?_
    refine (Prog.Calls.perform id).bind fun group => ?_
    cases group <;> trivial

theorem apart_recvLoop (fuel : Nat) (response : Bytes) : (recvLoop fuel response).Calls Apart := by
  induction fuel generalizing response with
  | zero => trivial
  | succ fuel ih =>
    refine .ite trivial ((calls_sys (.perform id)).bind fun chunk => ?_)
    exact .ite trivial (.ite trivial (ih _))

theorem apart_exchange {request : Bytes} : (exchange request).Calls Apart := by
  refine apart_falseOnOsError (.tryFinally ?_ (calls_sys (.perform id)))
  refine (calls_sys (.perform id)).bind fun _ => ?_
  refine (calls_sys (.perform id)).bind fun _ => ?_
  refine (calls_sys (.perform id)).bind fun _ => ?_
  exact (apart_recvLoop _ _).bind fun _ => trivial

theorem apart_consumeNonce {nonce receiptSha256 operationPayloadSha256 : PyStr} :
    (consumeNonceViaControlPlane nonce receiptSha256 operationPayloadSha256).Calls Apart := by
  refine apart_brokerReachable.bind fun reachable => ?_
  exact .ite ((Prog.Calls.ofExcept _).bind fun _ => apart_exchange) trivial

theorem apart_approvalIsFresh {row : Members} {operationId : Json} :
    (approvalIsFresh row operationId).Calls Apart := by
  unfold approvalIsFresh
  split
  · trivial
  · exact (Prog.Calls.perform id).bind fun _ => trivial

theorem apart_verifyRow {operationId : Json} {sha256 : PyStr} {row : Members} :
    (verifyRow C operationId sha256 row).Calls Apart := by
  refine .ite trivial (apart_approvalIsFresh.bind fun fresh => ?_)
  refine .ite trivial ((apart_noneOnValueError apart_verifyOperationEnvelope).bind
    fun verified => ?_)
  cases verified with
  | none => trivial
  | some v => exact .ite trivial trivial

theorem apart_bindPlainDecision {d : PlainDecision} : (bindPlainDecision C d).Calls Apart := by
  have hprofile : projectProfile.Calls Apart := apart_readJson.bind fun _ => .ofExcept _
  refine hprofile.bind fun profile => ?_
  refine (Prog.Calls.ofExcept _).bind fun _ => ?_
  refine (Prog.Calls.ofExcept _).bind fun label => ?_
  have hbinding : (plainL2RequestBinding C d.requestPath d.decisionId d.scope label).Calls
    Apart := by
    refine (Prog.Calls.ofExcept _).bind fun _ => ?_
    refine (apart_withSnapshot (calls_raising (.perform id))).bind fun raw => ?_
    exact (Prog.Calls.ofExcept _).bind fun _ => trivial
  exact hbinding.bind fun _ => trivial

theorem apart_verifyAssumptions (index : Nat) (seen : List PyStr) (rows : List Json) :
    (verifyAssumptions C index seen rows).Calls Apart := by
  induction rows generalizing index seen with
  | nil => trivial
  | cons row rest ih =>
    unfold verifyAssumptions
    split
    · trivial
    · refine .ite trivial ((calls_raising (.perform id)).bind fun raw => ?_)
      exact (Prog.Calls.ofExcept _).bind fun _ => (ih _ _).bind fun _ => trivial

/-- Verifying an envelope stays apart from the store. -/
theorem apart_verifyProductEnvelope {envelope : Json} :
    (verifyProductEnvelope C envelope).Calls Apart := by
  refine (Prog.Calls.ofExcept _).bind fun ⟨receipt, signature⟩ => ?_
  have hdigest : (verifiedAssumptionsDigest C receipt.assumptions).Calls Apart := by
    unfold verifiedAssumptionsDigest
    split
    · exact apart_withSnapshot ((apart_verifyAssumptions _ _ _).bind fun _ => .ofExcept _)
    · trivial
  have hdomain : (trustedApproverDomain receipt.approvedBy).Calls Apart := by
    refine (calls_raising (.perform id)).bind fun data => ?_
    refine (Prog.Calls.ofExcept _).bind fun ⟨root, repositoryId⟩ => ?_
    refine (calls_raising (.perform id)).bind fun bound => ?_
    refine (Prog.Calls.ofExcept _).bind fun _ => ?_
    exact (calls_raising (.perform id)).bind fun _ => .ofExcept _
  refine hdigest.bind fun digest => ?_
  refine (Prog.Calls.ofExcept _).bind fun _ => ?_
  refine (Prog.Calls.ofExcept _).bind fun ⟨issuedAt, expiresAt⟩ => ?_
  refine (Prog.Calls.perform id).bind fun current => ?_
  generalize checkProductWindow current issuedAt expiresAt = window
  refine (Prog.Calls.ofExcept window).bind fun _ => ?_
  refine apart_trustedApprover.bind fun publicKey => ?_
  refine hdomain.bind fun _ => ?_
  exact (Prog.Calls.ofExcept _).bind fun _ => trivial

theorem apart_readProductFile {path : PyStr} : (readProductFile path).Calls Apart := by
  refine (calls_raising (.perform id)).bind fun name => ?_
  refine (Prog.Calls.ofExcept _).bind fun _ => ?_
  exact apart_withSnapshot ((calls_raising (.perform id)).bind fun _ => .ofExcept _)

theorem apart_requestedPayload {payload : Json} : (requestedPayload C payload).Calls Apart := by
  refine (Prog.Calls.ofExcept _).bind fun sha256 => ?_
  exact apart_requireMatchingRuntimeContext.bind fun _ => trivial

end Apart

/-! ## The programs under the lock -/

section Programs

variable {ι : Type} [DecidableEq ι] {i : ι} {C : Crypto}

/-- Reading the store gives a store of the guarded file. -/
theorem triple_decisionStore {P : Option Json × Unit → Prop} :
    Triple decisionContract (fileGuard .decisions .decisions) i P decisionStore HasStore := by
  apply triple_readJson.bind
  intro data
  apply Triple.ofExcept
  rintro store hstore σ ⟨-, rfl⟩
  unfold checkStore at hstore
  split at hstore
  · exact absurd hstore (by simp)
  · next store' hcontent =>
    obtain rfl := Except.ok.inj hstore
    exact hcontent

/-- Replacing the store's file needs a good store that evolves from the present one. -/
theorem triple_atomicJson {P : Option Json × Unit → Prop} {v : Json}
    (h : ∀ σ, GoodDecisions σ.1 → P σ → decisionContract.good (some v, ())
      ∧ decisionContract.evolves σ (some v, ())) :
    Triple decisionContract (fileGuard .decisions .decisions) i P (atomicJson .decisions v)
      fun _ _ => True := by
  have hparent : (sys (ask (.makeParent .decisions))).Calls fun o =>
    ¬Touches .decisions .decisions o :=
    calls_sys (.perform id)
  apply (Triple.still (calls_still hparent)).bind
  intro _
  apply (Triple.still (calls_still (calls_writeTemporary id))).bind
  intro _
  apply triple_replace
  intro σ hgood hP
  exact ⟨(), (h σ hgood hP).1, (h σ hgood hP).2, trivial⟩

theorem triple_now {P : Option Json × Unit → Prop} :
    Triple decisionContract (fileGuard .decisions .decisions) i P (ask .now) fun _ => P :=
  .still (calls_still (.perform id))

/-- A row with an id and, perhaps, a nonce that no row has. -/
structure Fresh (store : DecisionStore) (row : Members) : Prop where
  text : hasText row "decision_id" = true
  id : ∀ x ∈ store.decisions, get (lit "decision_id") x ≠ get (lit "decision_id") row
  nonce : ∀ x ∈ store.decisions, NoncesApart x row

/-- A new row comes at the end. -/
theorem triple_addRow {store : DecisionStore} {row : Members} (hrow : Fresh store row) :
    Triple decisionContract (fileGuard .decisions .decisions) i (HasStore store)
      (atomicJson .decisions (store.withRows (store.decisions ++ [row]))) fun _ _ => True := by
  apply triple_atomicJson
  intro σ hgood hstore
  have htexts := (decisionStore?_eq.mp hstore).texts
  have hids := hgood.ids
  have hnonces := hgood.nonces
  rw [hstore.rows] at hids hnonces
  refine good_withRows hstore ?_ (hids.append hrow.id) ?_ (Grows.append DecisionStep.same _ _)
  · exact List.forall_mem_append.mpr ⟨htexts, by simpa using hrow.text⟩
  · refine List.pairwise_append.mpr ⟨hnonces, List.pairwise_singleton _ _, ?_⟩
    intro x hx y hy
    rw [List.mem_singleton.mp hy]
    exact hrow.nonce x hx

/-- An unconsumed row is consumed in its place. -/
theorem triple_consumeRow {store : DecisionStore} {p : Members → Bool} {row : Members}
    (hfind : store.decisions.find? p = some row) (hrow : Unconsumed row) (consumedAt : Instant) :
    Triple decisionContract (fileGuard .decisions .decisions) i (HasStore store)
      (atomicJson .decisions
        (store.withRows (replaceFirst p (consumedRow row consumedAt) store.decisions)))
      fun _ _ => True := by
  apply triple_atomicJson
  intro σ hgood hstore
  have htexts := (decisionStore?_eq.mp hstore).texts
  have hids := hgood.ids
  have hnonces := hgood.nonces
  rw [hstore.rows] at hids hnonces
  have hid : get (lit "decision_id") (consumedRow row consumedAt)
    = get (lit "decision_id") row := by
    unfold Python.get
    rw [lookup_consumedRow (by simp) (by simp)]
  have hnonce : lookup (lit "approval_nonce") (consumedRow row consumedAt)
      = lookup (lit "approval_nonce") row := lookup_consumedRow (by simp) (by simp)
  refine good_withRows hstore ?_ ?_ ?_
    (grows_replaceFirst DecisionStep.same hfind (.consumed hrow consumedAt))
  · intro x hx
    rcases mem_replaceFirst hx with rfl | hx
    · unfold hasText
      rw [hid]
      exact htexts row (List.mem_of_find?_eq_some hfind)
    · exact htexts x hx
  · -- the ids are those of the rows before
    refine List.pairwise_map.mp ?_
    rw [map_replaceFirst hfind hid]
    exact List.pairwise_map.mpr hids
  · have hapart : ((store.decisions.map (lookup (lit "approval_nonce"))).Pairwise
        fun a b => a = b → a = none) := List.pairwise_map.mpr hnonces
    rw [← map_replaceFirst hfind hnonce, List.pairwise_map] at hapart
    exact hapart

/-- Recording a plain decision keeps the store: the row it adds or replaces has a text as its id. -/
theorem triple_recordPlain {d : PlainDecision} (hid : (text? d.decisionId).isSome = true)
    {profile requestSha256 : PyStr} :
    Triple decisionContract (fileGuard .decisions .decisions) i (fun _ => True)
      (recordPlainDecision d profile requestSha256) fun _ _ => True := by
  apply triple_decisionStore.bind
  intro store
  dsimp only
  split
  · exact .raise
  · next hnew =>
    apply triple_now.bind
    intro recordedAt
    apply triple_addRow
    have hrow : get (lit "decision_id") (plainRow d profile requestSha256 recordedAt)
      = d.decisionId := by
      simp [plainRow, Python.get, lookup]
    refine ⟨?_, fun x hx heq => hnew ?_, fun x _ heq => ?_⟩
    · unfold hasText
      rw [hrow]
      exact hid
    · rw [hrow] at heq
      refine List.any_eq_true.mpr ⟨x, hx, ?_⟩
      obtain ⟨s, hs⟩ := Option.isSome_iff_exists.mp hid
      unfold hasDecisionId
      rw [heq, eq_of_text? hs]
      exact (pyEq_str_right _ _).mpr rfl
    · rw [heq]
      simp [plainRow, lookup]

/-- A row with a signed id and a signed nonce, neither of which a row of the store has. -/
theorem fresh_of_signed {store : DecisionStore} {row : Members} {decisionId nonce : PyStr}
    (htext : isBlank decisionId = false) (hid : get (lit "decision_id") row = .str decisionId)
    (hnonce : get (lit "approval_nonce") row = .str nonce)
    (hnew : ¬(store.decisions.any fun x => pyEq (get (lit "decision_id") x) (.str decisionId)
      || pyEq (get (lit "approval_nonce") x) (.str nonce)) = true) : Fresh store row := by
  have hapart : ∀ x ∈ store.decisions, get (lit "decision_id") x ≠ .str decisionId
      ∧ get (lit "approval_nonce") x ≠ .str nonce := by
    intro x hx
    constructor
    · intro heq
      refine hnew (List.any_eq_true.mpr ⟨x, hx, ?_⟩)
      rw [heq, (pyEq_str_right _ _).mpr rfl, Bool.true_or]
    · intro heq
      refine hnew (List.any_eq_true.mpr ⟨x, hx, ?_⟩)
      rw [heq, (pyEq_str_right _ _).mpr rfl, Bool.or_true]
  refine ⟨?_, fun x hx heq => (hapart x hx).1 (heq.trans hid), fun x hx heq => ?_⟩
  · unfold hasText
    rw [hid]
    simp [text?, htext]
  · refine absurd ?_ (hapart x hx).2
    unfold Python.get at hnonce ⊢
    rw [heq, hnonce]

/-- Recording a product decision keeps the store. -/
theorem triple_recordProduct {receipt : ProductReceipt} (hid : isBlank receipt.decisionId = false)
    {receiptSha256 : PyStr} {envelope : Json} :
    Triple decisionContract (fileGuard .decisions .decisions) i (fun _ => True)
      (recordProduct receipt receiptSha256 envelope) fun _ _ => True := by
  apply triple_decisionStore.bind
  intro store
  dsimp only
  split
  · exact .raise
  · next hnew =>
    apply triple_now.bind
    intro recordedAt
    apply triple_addRow
    exact fresh_of_signed hid (by simp [productRow, Python.get, lookup])
      (by simp [productRow, Python.get, lookup]) hnew

/-- Recording an approval keeps the store. -/
theorem triple_recordApproval {v : VerifiedOperation} (hid : isBlank v.receipt.approvalId = false)
    {envelope : Json} :
    Triple decisionContract (fileGuard .decisions .decisions) i (fun _ => True)
      (recordApproval v envelope) fun _ _ => True := by
  apply triple_decisionStore.bind
  intro store
  dsimp only
  split
  · exact .raise
  · next hnew =>
    apply triple_now.bind
    intro recordedAt
    apply triple_addRow
    exact fresh_of_signed hid (by simp [approvalRow, Python.get, lookup])
      (by simp [approvalRow, Python.get, lookup]) hnew

theorem eq_null_of_pyEq {v : Json} (h : pyEq v .null = true) : v = .null := by
  cases v with
  | null => rfl
  | float x => cases x <;> simp [pyEq, scalarEq, Json.num?, PyFloat.value?] at h
  | _ => simp [pyEq, scalarEq, Json.num?] at h

/-- An approval that has an end is an unconsumed one. -/
theorem approvalExpiry?_unconsumed {row : Members} {operationId : Json} {expiresAt : Int}
    (h : approvalExpiry? row operationId = some expiresAt) : Unconsumed row := by
  unfold approvalExpiry? at h
  split at h
  · next hchecks =>
    simp only [Bool.and_eq_true] at hchecks
    exact ⟨(pyEq_str_right _ _).mp hchecks.1.1.1, (pyEq_str_right _ _).mp hchecks.1.1.2,
      eq_null_of_pyEq hchecks.2⟩
  · exact absurd h (by simp)

/-- Only an unconsumed row passes the checks. -/
theorem triple_verifyRow {P : Option Json × Unit → Prop} {operationId : Json} {sha256 : PyStr}
    {row : Members} :
    Triple decisionContract (fileGuard .decisions .decisions) i P
      (verifyRow C operationId sha256 row)
      fun verified σ => P σ ∧ (verified.isSome = true → Unconsumed row) := by
  cases hexpiry : approvalExpiry? row operationId with
  | some expiresAt =>
    refine (Triple.still (calls_still apart_verifyRow)).mono (fun _ h => h) fun _ _ h =>
      ⟨h, fun _ => ?_⟩
    exact approvalExpiry?_unconsumed hexpiry
  | none =>
    -- without an end the approval is not fresh
    have hfresh : approvalIsFresh row operationId = .ret false := by
      unfold approvalIsFresh
      rw [hexpiry]
      rfl
    unfold verifyRow
    split
    · exact .ret fun _ h => ⟨h, fun hsome => absurd hsome (by simp)⟩
    · rw [hfresh]
      exact .ret fun _ h => ⟨h, fun hsome => absurd hsome (by simp)⟩

/-- Consuming an approval keeps the store: only the status of its row changes. -/
theorem triple_consumeLocked {approvalId operationId : Json} {sha256 : PyStr} :
    Triple decisionContract (fileGuard .decisions .decisions) i (fun _ => True)
      (consumeLocked C approvalId operationId sha256) fun _ _ => True := by
  apply triple_decisionStore.bind
  intro store
  cases hfind : store.decisions.find? (hasDecisionId approvalId) with
  | none => exact .ret fun _ _ => trivial
  | some row =>
    apply triple_verifyRow.bind
    intro verified
    cases verified with
    | none => exact .ret fun _ _ => trivial
    | some v =>
      have hconsume : Triple decisionContract (fileGuard .decisions .decisions) i
          (fun σ => HasStore store σ ∧ ((some v).isSome = true → Unconsumed row))
          (consumeNonceViaControlPlane v.receipt.nonce v.receiptSha256 v.operationPayloadSha256)
          fun _ σ => HasStore store σ ∧ ((some v).isSome = true → Unconsumed row) :=
        .still (calls_still apart_consumeNonce)
      apply hconsume.bind
      intro isConsumed
      dsimp only
      split
      · apply Triple.assume
        intro hrow
        apply triple_now.bind
        intro consumedAt
        exact (triple_consumeRow hfind (hrow rfl) consumedAt).bind fun _ => .ret fun _ _ => trivial
      · exact .ret fun _ _ => trivial

/-! ## Every run -/

/-- The four calls that write the store. -/
inductive DecisionCall
  | record (d : PlainDecision)
  | importProduct (path : PyStr)
  | importOperation (path : PyStr)
  | consume (approvalId operationId operationPayload : Json)

def DecisionCall.prog (C : Crypto) : DecisionCall → HostProg (Option Members)
  | .record d => do
    let result ← recordDecision C d
    pure (some result)
  | .importProduct path => do
    let result ← importProductApproval C path
    pure (some result)
  | .importOperation path => do
    let result ← importOperationApproval C path
    pure (some result)
  | .consume approvalId operationId operationPayload =>
    consumeOperationApproval C approvalId operationId operationPayload

/-- The store with its lock, under calls that can fail at any point. -/
abbrev decisionSem : Sem ι (Guarded ι (Option Json)) hostSig :=
    (fileGuard .decisions .decisions).sem

/-- A store, and calls that have not begun; `none` is a process that makes no call. -/
def startDecisions (C : Crypto) (content : Option Json) (calls : ι → Option DecisionCall) :
    Conf ι (Guarded ι (Option Json)) hostSig Exn (Option Members) :=
  ⟨⟨content, none⟩, fun i => (calls i).map (DecisionCall.prog C)⟩

theorem not_blank {v : Json} {s : PyStr} (h : text? v = some s) : isBlank s = false := by
  unfold text? at h
  split at h
  · split at h
    · exact absurd h (by simp)
    · next hblank =>
      obtain rfl := Option.some.inj h
      simpa using hblank
  · exact absurd h (by simp)

theorem operationReceipt?_approvalId {m : Members} {receipt : OperationReceipt}
    (h : operationReceipt? m = some receipt) : isBlank receipt.approvalId = false := by
  unfold operationReceipt? at h
  split at h
  · obtain ⟨approvalId, hid, h⟩ := Option.bind_eq_some_iff.mp h
    iterate 7 obtain ⟨_, -, h⟩ := Option.bind_eq_some_iff.mp h
    obtain rfl := Option.some.inj h
    exact not_blank hid
  · exact absurd h (by simp)

theorem productReceipt?_decisionId {m : Members} {receipt : ProductReceipt}
    (h : productReceipt? m = some receipt) : isBlank receipt.decisionId = false := by
  unfold productReceipt? at h
  split at h
  · obtain ⟨decisionId, hid, h⟩ := Option.bind_eq_some_iff.mp h
    iterate 8 obtain ⟨_, -, h⟩ := Option.bind_eq_some_iff.mp h
    obtain rfl := Option.some.inj h
    exact not_blank hid
  · exact absurd h (by simp)

/-- The id in a verified receipt is not blank, so the row made of it can be found again. -/
theorem verifyProductEnvelope_decisionId {C : Crypto} {envelope : Json} {receipt : ProductReceipt}
    {sha256 : PyStr} {t : List (Event hostSig)}
    (h : Runs (verifyProductEnvelope C envelope) t (.ok (receipt, sha256))) :
    isBlank receipt.decisionId = false := by
  obtain ⟨_, _, ⟨receipt', signature⟩, -, hread, h⟩ := runs_bind h
  dsimp only [Prog.bind_eq] at h
  obtain ⟨_, _, _, -, -, h⟩ := runs_bind h
  obtain ⟨_, _, _, -, -, h⟩ := runs_bind h
  obtain ⟨_, _, ⟨issuedAt, expiresAt⟩, -, -, h⟩ := runs_bind h
  obtain ⟨_, _, _, -, -, h⟩ := runs_bind h
  obtain ⟨_, _, _, -, -, h⟩ := runs_bind h
  obtain ⟨_, _, _, -, -, h⟩ := runs_bind h
  obtain ⟨_, _, _, -, -, h⟩ := runs_bind h
  obtain ⟨_, _, _, -, -, hret⟩ := runs_bind h
  obtain ⟨rfl, -⟩ := Prod.mk.inj (Except.ok.inj (runs_ret hret).2)
  have hread := (runs_ofExcept hread).2.symm
  unfold readProductEnvelope at hread
  split at hread
  · exact absurd hread (by simp)
  · split at hread
    · exact absurd hread (by simp)
    · next r hr =>
      obtain ⟨_, -, hread⟩ := except_bind_ok.mp hread
      obtain ⟨_, -, hlast⟩ := except_bind_ok.mp hread
      obtain ⟨rfl, -⟩ := Prod.mk.inj (Except.ok.inj hlast)
      exact productReceipt?_decisionId hr

/-- Texts that are within bounds are texts. -/
theorem allBoundedText_ok {values : List Json} (h : allBoundedText values = .ok true) :
    ∀ v ∈ values, (text? v).isSome = true := by
  induction values with
  | nil => simp
  | cons v rest ih =>
    obtain ⟨bounded, hv, hrest⟩ := except_bind_ok.mp h
    cases bounded with
    | false => exact absurd (Except.ok.inj hrest) (by simp)
    | true =>
      refine List.forall_mem_cons.mpr ⟨?_, ih hrest⟩
      cases v with
      | str s =>
        by_cases hblank : isBlank s = true
        · simp [isBoundedText, hblank] at hv
        · simp [text?, hblank]
      | _ => exact absurd (Except.ok.inj hv) (by simp)

theorem bindPlainDecision_id {C : Crypto} {d : PlainDecision} {x : PyStr × PyStr}
    {t : List (Event hostSig)} (h : Runs (bindPlainDecision C d) t (.ok x)) :
    (text? d.decisionId).isSome = true := by
  obtain ⟨_, _, _, -, -, h⟩ := runs_bind h
  obtain ⟨_, _, _, -, -, h⟩ := runs_bind h
  obtain ⟨_, _, label, -, hcheck, -⟩ := runs_bind h
  obtain ⟨bounded, hbounded, hcheck⟩ := except_bind_ok.mp (runs_ofExcept hcheck).2.symm
  obtain ⟨_, htrue, -⟩ := except_bind_ok.mp hcheck
  obtain rfl : bounded = true := require_ok.mp htrue
  exact allBoundedText_ok hbounded _ (List.mem_cons_self ..)

/-- A critical section and the result made of it. -/
theorem safe_locked {α β : Type} {body : HostProg α} {result : α → β}
    (hbody : Triple decisionContract (fileGuard .decisions .decisions) i (fun _ => True) body
      fun _ _ => True) {s : Guarded ι (Option Json) × Unit}
      (hs : decisionContract.good (shared s)) :
    (decisionContract.discipline (fileGuard .decisions .decisions)).Safe i (fun _ _ => True)
      ((withLock .decisions body).handle (fun a => .ret (result a)) .raise) s :=
  (safe_withLock hbody (fun _ _ _ _ h => h) hs).handle hs (fun _ _ _ _ _ _ _ => trivial)
    fun _ _ _ _ _ _ _ => trivial

/-- Every call is safe from every good store. -/
theorem safe_call (call : DecisionCall) {s : Guarded ι (Option Json) × Unit}
    (hs : GoodDecisions (shared s).1) :
    (decisionContract.discipline (fileGuard .decisions .decisions)).Safe i (fun _ _ => True)
      (call.prog C) s := by
  have hresult {p : HostProg Members} (hp : (decisionContract.discipline
      (fileGuard .decisions .decisions)).Safe i (fun _ _ => True) p s) :
      (decisionContract.discipline (fileGuard .decisions .decisions)).Safe i (fun _ _ => True)
        (p.handle (fun m => .ret (some m)) .raise) s :=
    hp.handle hs (fun _ _ _ _ _ _ _ => trivial) fun _ _ _ _ _ _ _ => trivial
  cases call with
  | record d =>
    refine hresult (safe_after apart_bindPlainDecision hs fun ⟨profile, sha256⟩ t s' ht hs' => ?_)
    exact safe_locked (triple_recordPlain (bindPlainDecision_id ht)) hs'
  | importProduct path =>
    refine hresult (safe_after apart_readProductFile hs fun envelope _ s' _ hs' => ?_)
    refine safe_after apart_verifyProductEnvelope hs' fun ⟨receipt, sha256⟩ t s'' ht hs'' => ?_
    exact safe_locked (triple_recordProduct (verifyProductEnvelope_decisionId ht)) hs''
  | importOperation path =>
    refine hresult (safe_after apart_readJson hs fun envelope _ s' _ hs' => ?_)
    refine safe_after apart_verifyOperationEnvelope hs' fun v t s'' ht hs'' => ?_
    have hid := operationReceipt?_approvalId (verifyOperationEnvelope_ok ht).receipt
    refine safe_after apart_requireMatchingRuntimeContext hs'' fun _ _ s₃ _ hs₃ => ?_
    exact safe_locked (triple_recordApproval hid) hs₃
  | consume approvalId operationId operationPayload =>
    refine safe_after (apart_noneOnValueError apart_requestedPayload) hs
      fun requested _ s' _ hs' => ?_
    cases requested with
    | none => exact fun _ _ _ => trivial
    | some sha256 =>
      exact (safe_withLock triple_consumeLocked (fun _ _ _ _ h => h) hs').mono
        fun _ _ _ _ => trivial

end Programs

/-! ## What a `ValueError` leaves undone -/

/-- The store was replaced. -/
def Replaced (event : Event hostSig) : Prop := ∃ v, event = ⟨.replace .decisions v, .ok ()⟩

def IsValueError (e : Exn) : Prop := ∃ message, e = .value message

section Undone

variable {C : Crypto}

theorem unmarked_of_apart {o : HostOp} (h : Apart o) : Unmarked Replaced o := by
  rintro r ⟨v, hv⟩
  obtain rfl : o = .replace .decisions v := congrArg Sigma.fst hv
  exact h rfl

theorem unmarked_calls {α : Type} {p : HostProg α} (h : p.Calls Apart) :
    p.Calls (Unmarked Replaced) :=
  h.mono fun _ => unmarked_of_apart

/-- A system call fails with an `OSError`. -/
theorem unfailing_sys {α : Type} {p : HostProg (Sys α)} (hp : Unfailing IsValueError p) :
    Unfailing IsValueError (sys p) := by
  apply hp.bind
  intro r
  cases r with
  | ok a => exact .ret a
  | error e => exact .raise fun ⟨_, h⟩ => Exn.noConfusion h

theorem undone_atomicJson {v : Json} : Undone Replaced IsValueError (atomicJson .decisions v) := by
  have hparent : (sys (ask (.makeParent .decisions))).Calls Apart := calls_sys (.perform id)
  refine Undone.after (unmarked_calls hparent) fun _ => ?_
  refine Undone.after (unmarked_calls (calls_writeTemporary id)) fun _ => ?_
  exact .unfailing (unfailing_sys (.perform _))

theorem undone_withLock {α : Type} {body : HostProg α} (h : Undone Replaced IsValueError body) :
    Undone Replaced IsValueError (withLock .decisions body) := by
  have hunmarked {o : HostOp} (ho : ∀ v, o ≠ .replace .decisions v) : Unmarked Replaced o := by
    rintro r ⟨v, hv⟩
    exact ho v (congrArg Sigma.fst hv)
  refine Undone.after (calls_sys (.perform (hunmarked (by simp)))) fun _ => ?_
  refine Undone.after (calls_sys (.perform (hunmarked (by simp)))) fun _ => ?_
  refine Undone.tryFinally ?_ (calls_sys (.perform (hunmarked (by simp))))
    (unfailing_sys (.perform _))
  refine Undone.after (calls_sys (.perform (hunmarked (by simp)))) fun _ => ?_
  exact h.tryFinally (calls_sys (.perform (hunmarked (by simp)))) (unfailing_sys (.perform _))

/-- The store is read, refused or given one more row. -/
theorem undone_addRow {refuses : DecisionStore → Bool} {refusal : Exn} {row : Instant → Members} :
    Undone Replaced IsValueError (do
      let store ← decisionStore
      if refuses store then .raise refusal
      else do
        let recordedAt ← ask .now
        atomicJson .decisions (store.withRows (store.decisions ++ [row recordedAt]))) := by
  refine Undone.after (unmarked_calls apart_decisionStore) fun store => ?_
  split
  · exact .quiet trivial
  · exact Undone.after (unmarked_calls (.perform id)) fun _ => undone_atomicJson

/-- Consuming replaces the store last, so a `ValueError` leaves it as it was. -/
theorem undone_consumeLocked {approvalId operationId : Json} {sha256 : PyStr} :
    Undone Replaced IsValueError (consumeLocked C approvalId operationId sha256) := by
  refine Undone.after (unmarked_calls apart_decisionStore) fun store => ?_
  cases hfind : store.decisions.find? (hasDecisionId approvalId) with
  | none => exact .quiet trivial
  | some row =>
    refine Undone.after (unmarked_calls apart_verifyRow) fun verified => ?_
    cases verified with
    | none => exact .quiet trivial
    | some v =>
      refine Undone.after (unmarked_calls apart_consumeNonce) fun isConsumed => ?_
      cases isConsumed with
      | false => exact .quiet trivial
      | true =>
        refine Undone.after (unmarked_calls (.perform id)) fun consumedAt => ?_
        exact undone_atomicJson.before fun _ => .ret _

/-- A call that fails with a `ValueError` has replaced nothing. Each of the calls checks first and
replaces last. -/
theorem undone_call (call : DecisionCall) : Undone Replaced IsValueError (call.prog C) := by
  cases call with
  | record d =>
    refine Undone.before ?_ fun _ => .ret _
    refine Undone.after (unmarked_calls apart_bindPlainDecision) fun ⟨profile, sha256⟩ => ?_
    exact (undone_withLock undone_addRow).before fun _ => .ret _
  | importProduct path =>
    refine Undone.before ?_ fun _ => .ret _
    refine Undone.after (unmarked_calls apart_readProductFile) fun envelope => ?_
    refine Undone.after (unmarked_calls apart_verifyProductEnvelope) fun ⟨receipt, sha256⟩ => ?_
    exact (undone_withLock undone_addRow).before fun _ => .ret _
  | importOperation path =>
    refine Undone.before ?_ fun _ => .ret _
    refine Undone.after (unmarked_calls apart_readJson) fun envelope => ?_
    refine Undone.after (unmarked_calls apart_verifyOperationEnvelope) fun v => ?_
    refine Undone.after (unmarked_calls apart_requireMatchingRuntimeContext) fun _ => ?_
    exact (undone_withLock undone_addRow).before fun _ => .ret _
  | consume approvalId operationId operationPayload =>
    refine Undone.after (unmarked_calls (apart_noneOnValueError apart_requestedPayload))
      fun requested => ?_
    cases requested with
    | none => exact .quiet trivial
    | some sha256 => exact undone_withLock undone_consumeLocked

end Undone

/-- **The invariant of the decision store.** From a good store on, over every run of any number of
calls, ids and nonces stay pairwise distinct, and between any two moments rows are only added and
approvals only consumed; and a call that ends with a `ValueError` has replaced nothing. -/
theorem decision_store_invariant {ι : Type} [DecidableEq ι] (C : Crypto) {content : Option Json}
    (hgood : GoodDecisions content) (calls : ι → Option DecisionCall)
    {c₁ c₂ : Conf ι (Guarded ι (Option Json)) hostSig Exn (Option Members)}
    (h₁ : decisionSem.Reach (startDecisions C content calls) c₁) (h₂ : decisionSem.Reach c₁ c₂) :
    (GoodDecisions c₂.world.value
        ∧ Grows DecisionStep (storeRows c₁.world.value) (storeRows c₂.world.value))
      ∧ ∀ (call : DecisionCall) t message, Runs (call.prog C) t (.error (.value message)) →
        ∀ event ∈ t, ¬Replaced event := by
  refine ⟨?_, fun call t message h => undone_call call t _ h ⟨message, rfl⟩⟩
  let D : Discipline (decisionSem : Sem ι (Guarded ι (Option Json)) hostSig) Unit :=
    decisionContract.discipline (fileGuard .decisions .decisions)
  have hsafe : D.AllSafe (fun _ _ _ => True) (startDecisions C content calls).threads
      (⟨content, none⟩, ()) := by
    intro i p hp
    obtain ⟨call, -, rfl⟩ := Option.map_eq_some_iff.mp hp
    exact safe_call call hgood
  obtain ⟨_, hinv₁, hsafe₁, -⟩ := D.run h₁ hgood hsafe
  obtain ⟨_, hinv₂, -, hevolves⟩ := D.run h₂ hinv₁ hsafe₁
  exact ⟨hinv₂, hevolves⟩

/-! ## An approval on its way through the store -/

/-- The host of the sample approval, with the store and its lock as they are. -/
def storeOracle (w : Guarded (Fin 2) (Option Json)) : (o : HostOp) → hostSig.Resp o
  | .readJson .decisions => .ok w.value
  | .readJson (.given _) => .ok (some plainSigned.envelope)
  | .flock .decisions => if w.holder.isNone then .ok () else .error .other
  | o => (approvedHost sampleCrypto plainSigned).answer o

/-- The oracle of the sample answers as a guarded file may. -/
theorem storeOracle_allowed (i : Fin 2) (w : Guarded (Fin 2) (Option Json)) (o : HostOp) :
    decisionSem.allows i w o (storeOracle w o) := by
  cases o with
  | readJson file =>
    cases file with
    | decisions => exact ⟨fun _ => .inl rfl, fun h => Bool.noConfusion h⟩
    | _ => exact ⟨fun h => absurd h (by simp), fun h => Bool.noConfusion h⟩
  | flock lock =>
    cases lock with
    | decisions =>
      refine ⟨trivial, fun htaken => ?_⟩
      -- the lock is only given where it is free
      cases hw : w.holder with
      | none => rfl
      | some j => simp [storeOracle, hw, fileGuard] at htaken
    | externalActions => exact ⟨trivial, fun h => Bool.noConfusion h⟩
  | _ => exact ⟨trivial, fun h => Bool.noConfusion h⟩

/-- The approval is imported by the first process and consumed by the second. -/
def sampleDecisionCalls : Fin 2 → Option DecisionCall
  | 0 => some (.importOperation [])
  | 1 => some (.consume (.str (lit "APP-1")) (.str (lit "OP-1")) (.obj samplePayload))

/-- The configuration in which the approval is on record. -/
def importedRun : Conf (Fin 2) (Guarded (Fin 2) (Option Json)) hostSig Exn (Option Members) :=
  decisionSem.driven 0 storeOracle (startDecisions sampleCrypto none sampleDecisionCalls)

/-- The configuration in which it has been consumed. -/
def consumedRun : Conf (Fin 2) (Guarded (Fin 2) (Option Json)) hostSig Exn (Option Members) :=
  decisionSem.driven 1 storeOracle importedRun

theorem goodDecisions_none : GoodDecisions none := by
  have hrows : storeRows none = [] := by decide
  refine ⟨by decide, ?_, ?_⟩
  · rw [hrows]
    exact List.Pairwise.nil
  · rw [hrows]
    exact List.Pairwise.nil

/-- From an empty store on the row of the approval is added and then consumed, and all that the
theorem says holds of this run. -/
theorem decision_store_sample :
    (storeRows importedRun.world.value).map (get (lit "status")) = [.str (lit "approved")]
      ∧ (storeRows consumedRun.world.value).map (get (lit "status")) = [.str (lit "completed")]
      ∧ GoodDecisions consumedRun.world.value
      ∧ Grows DecisionStep (storeRows importedRun.world.value)
        (storeRows consumedRun.world.value) := by
  have himported : decisionSem.Reach (startDecisions sampleCrypto none sampleDecisionCalls)
    importedRun :=
    Sem.driven_reach (storeOracle_allowed 0) _
  have hconsumed : decisionSem.Reach importedRun consumedRun :=
    Sem.driven_reach (storeOracle_allowed 1) _
  refine ⟨by decide +kernel, by decide +kernel, ?_⟩
  exact (decision_store_invariant sampleCrypto goodDecisions_none sampleDecisionCalls himported
    hconsumed).1

end SddGov.Autonomy
