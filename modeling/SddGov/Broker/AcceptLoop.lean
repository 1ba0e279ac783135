import Mathlib.Data.Rat.Defs
import Mathlib.Data.List.TakeWhile
import SddGov.Broker.AtMostOnce
import SddGov.Broker.Delivery
import SddGov.Effect.Returns
import SddGov.Python.Utf8

/-!
# The accept loop

`_serve_requests` turn by turn: a stop request, a connection with what its calls
answer, a timeout, an interruption, or another `OSError` of `accept`.
Between two turns the counter is the number of failures since the last
connection or timeout, and the backoff is the first wait doubled as often, up to
the cap (`Counts`). So the loop gives up at the fifth such failure and nowhere
else (`gives_up_iff`), where nothing nests deeper than the limits of the parser and
neither the log nor a close fails (`Turn.Sound`).
-/

namespace SddGov.Broker

open SddGov.Effect SddGov.Python

/-! ## The loop -/

/-- `MAX_CONSECUTIVE_ACCEPT_FAILURES` -/
def maxConsecutiveAcceptFailures : Nat := 5

/-- `INITIAL_ACCEPT_BACKOFF_SECONDS`, the double of `0.1`. -/
def initialAcceptBackoff : ℚ := 3602879701896397 / 36028797018963968

/-- `MAX_ACCEPT_BACKOFF_SECONDS` -/
def maxAcceptBackoff : ℚ := 2

/-- What the calls of one connection answer, the calls before them given: those of
`_receive_request`, those of `handle_request`, and the close at the end of the `with` block. An
`OSError` of the sending is passed over, so the sending leaves no trace here. -/
structure Connection where
  socket : List (Event socketSig) → (o : SocketOp) → socketSig.Resp o
  ledger : List (Event ledgerSig) → (o : LedgerOp) → ledgerSig.Resp o
  closed : Sys Unit

/-- One turn of the loop: what `should_stop` and `accept` do. -/
inductive Turn
  | stop
  | accepted (connection : Connection)
  | timeout
  | interrupted
  /-- Another `OSError`, with its text, and what `_broker_log` does with it. -/
  | failure (message : PyStr) (logged : Sys Unit)

/-- What the loop does besides: `_broker_log` and `time.sleep`. -/
inductive LoopEffect
  | logged (text : PyStr)
  | slept (seconds : ℚ)

structure AcceptLoop where
  consecutiveAcceptFailures : Nat
  acceptBackoff : ℚ
  effects : List LoopEffect

/-- The loop is before its next turn, has returned, or has raised. -/
inductive Serving
  | running (l : AcceptLoop)
  | stopped (effects : List LoopEffect)
  | raised (e : Exn) (effects : List LoopEffect)

/-- The line that is logged for the failure with this number. -/
def failureLine (number : Nat) (message : PyStr) : PyStr :=
  lit "L3 Broker accept failure " ++ natText number ++ lit "/"
    ++ natText maxConsecutiveAcceptFailures
    ++ lit ": " ++ message

/-- How `_receive_request` ends. -/
def Connection.received (c : Connection) : Except Exn Bytes :=
    (receiveRequest.replied c.socket []).2

section Handling

variable [Nesting] (L : NonceLedger)

/-- `_handle_connection` -/
def handleConnection (c : Connection) : Except Exn Unit :=
  ((respond L c.received).replied c.ledger []).2.map fun _ => ()

/-- `with connection: _handle_connection(connection, ledger)`; an exception of the close replaces
another. -/
def serveConnection (c : Connection) : Except Exn Unit :=
  match c.closed with
  | .ok _ => handleConnection L c
  | .error e => .error (.os e)

/-- One turn. -/
def AcceptLoop.turn (l : AcceptLoop) : Turn → Serving
  | .stop => .stopped l.effects
  | .timeout => .running ⟨0, initialAcceptBackoff, l.effects⟩
  | .interrupted => .running l
  | .failure message logged =>
    let failures := l.consecutiveAcceptFailures + 1
    let effects := l.effects ++ [.logged (failureLine failures message)]
    match logged with
    | .error e => .raised (.os e) effects
    | .ok _ =>
      if maxConsecutiveAcceptFailures ≤ failures then .raised (.os .other) effects
      else .running ⟨failures, min maxAcceptBackoff (l.acceptBackoff * 2), effects
        ++ [.slept l.acceptBackoff]⟩
  | .accepted connection =>
    match serveConnection L connection with
    | .ok _ => .running ⟨0, initialAcceptBackoff, l.effects⟩
    | .error e => .raised e l.effects

def Serving.turn : Serving → Turn → Serving
  | .running l, t => l.turn L t
  | s, _ => s

/-- `_serve_requests`, after these turns. -/
def serveRequests (turns : List Turn) : Serving :=
  turns.foldl (Serving.turn L) (.running ⟨0, initialAcceptBackoff, []⟩)

/-! ## Connections that are handled -/

/-- The JSON text of a line nests within the limit: the parser does not meet the recursion limit. -/
def nestsWithin (limit : Nat) (line : Bytes) : Bool :=
  match utf8Decode line.dropLast with
  | none => true
  | some text =>
    match loads limit text with
    | .error .recursion => false
    | _ => true

/-- The lines that the reading loop of `_scan_locked` takes off these bytes. -/
def ledgerLines : Nat → Bytes → List Bytes
  | 0, _ => []
  | fuel + 1, s =>
    match readline (maxLedgerRecordBytes + 1) s with
    | ([], _) => []
    | (line, rest) => line :: ledgerLines fuel rest

/-- A call of the ledger that is answered so that no `RecursionError` comes of it, and no
exception of the log. -/
def FineAnswer : Event ledgerSig → Prop
  | ⟨.readLedger, .ok ledger⟩ =>
    ∀ line ∈ ledgerLines ledger.length ledger, nestsWithin Nesting.record line = true
  | ⟨.log _, logged⟩ => logged = .ok ()
  | _ => True

/-- The bytes of the request and of the ledger nest within the limits, and neither the log nor the
close of the connection fails. -/
structure Connection.Sound (c : Connection) : Prop where
  request : ∀ raw, c.received = .ok raw → nestsWithin Nesting.request raw = true
  ledger : ∀ past o, FineAnswer ⟨o, c.ledger past o⟩
  closed : c.closed = .ok ()

/-- The same for a turn, and the line about a failure is logged. -/
def Turn.Sound : Turn → Prop
  | .accepted connection => connection.Sound
  | .failure _ logged => logged = .ok ()
  | _ => True

/-- The exceptions that `_handle_connection` handles. -/
def IsHandled (e : Exn) : Prop := e.isOsOrValue = true

omit [Nesting] in
theorem raises_sys {S : Sig} {α : Type} {P : Event S → Prop} {p : Prog S Exn (Sys α)}
    (h : Raises P p IsHandled) : Raises P (sys p) IsHandled := by
  refine h.handle (fun answer => ?_) fun _ he => .raise he
  cases answer with
  | ok a => exact .ret a
  | error e => exact .raise rfl

omit [Nesting] in
/-- Receiving fails only with what is handled. -/
theorem raises_receiveLoop {deadline : Int} (fuel : Nat) (value : Bytes) :
    Raises (fun _ => True) (receiveLoop deadline fuel value) IsHandled := by
  have hcheck (value : Bytes) : Raises (fun _ => True)
      (Prog.ofExcept (checkRequest value) : SocketProg Bytes) IsHandled := by
    refine .ofExcept fun e he => ?_
    unfold checkRequest at he
    split at he
    · exact Except.error.inj he ▸ rfl
    · split at he
      · exact Except.error.inj he ▸ rfl
      · exact absurd he (by simp)
  induction fuel generalizing value with
  | zero => exact hcheck value
  | succ fuel ih =>
    refine .call fun now _ => .ite (.raise rfl) ?_
    refine (raises_sys (.call fun r _ => .ret r)).bind fun chunk => ?_
    exact .ite (hcheck value) (.ite (hcheck _) (ih _))

omit [Nesting] in
/-- `_receive_request` raises `OSError` and `ValueError` only. -/
theorem Connection.received_handled {c : Connection} {e : Exn} (h : c.received = .error e) :
    IsHandled e := by
  have hrun := runs_replied c.socket [] receiveRequest
  unfold Connection.received at h
  rw [h] at hrun
  have hraises : Raises (fun _ => True) receiveRequest IsHandled :=
    .call fun now _ => raises_receiveLoop _ _
  exact hraises _ e hrun fun _ _ => trivial

omit [Nesting] in
/-- Within the nesting limit the reader fails with a `ValueError`, which is handled. -/
theorem handled_of_nestsWithin {limit : Nat} {line : Bytes} {text : PyStr} {e : JsonError}
    (h : nestsWithin limit line = true) (hdecode : utf8Decode line.dropLast = some text)
    (he : loads limit text = .error e) : IsHandled (.ofJson e) := by
  unfold nestsWithin at h
  rw [hdecode] at h
  dsimp only at h
  rw [he] at h
  cases e with
  | recursion => exact absurd h (by simp)
  | decode => rfl
  | digits => rfl

/-- Within the nesting limit the reader of a request fails with what is handled. -/
theorem parseRequest_handled {raw : Bytes} (h : nestsWithin Nesting.request raw = true) {e : Exn}
    (he : parseRequest raw = .error e) : IsHandled e := by
  unfold parseRequest at he
  split at he
  · exact Except.error.inj he ▸ rfl
  · split at he
    · exact Except.error.inj he ▸ rfl
    · next text hdecode =>
      split at he
      · exact Except.error.inj he ▸ rfl
      · next e' hload => exact Except.error.inj he ▸ handled_of_nestsWithin h hdecode hload
      · exact absurd he (by simp)
      · exact Except.error.inj he ▸ rfl

/-- A line within the nesting that the reader takes fails with an error that the broker handles. -/
theorem scanLine_handled {line : Bytes} {seen : List PyStr} {e : Exn}
    (h : nestsWithin Nesting.record line = true) (he : scanLine line seen = .error e) :
    IsHandled e := by
  unfold scanLine at he
  split at he
  · exact Except.error.inj he ▸ rfl
  · split at he
    · next e' hload =>
      obtain rfl := Except.error.inj he
      unfold loadsRecord at hload
      split at hload
      · exact Except.error.inj hload ▸ rfl
      · next text hdecode =>
        split at hload
        · exact absurd hload (by simp)
        · exact Except.error.inj hload ▸ rfl
        · next e'' hloads =>
          exact Except.error.inj hload ▸ handled_of_nestsWithin h hdecode hloads
    · split at he
      · exact Except.error.inj he ▸ rfl
      · split at he
        · exact Except.error.inj he ▸ rfl
        · exact absurd he (by simp)

/-- Where every line nests within the limit, the scan raises a `ValueError` or nothing. -/
theorem scanLines_handled (fuel : Nat) (s : Bytes) {seen : List PyStr} {e : Exn}
    (h : ∀ line ∈ ledgerLines fuel s, nestsWithin Nesting.record line = true)
    (he : scanLines fuel s seen = .error e) : IsHandled e := by
  induction fuel generalizing s seen with
  | zero => exact absurd he (by simp [scanLines])
  | succ fuel ih =>
    unfold scanLines at he
    unfold ledgerLines at h
    split at he
    · exact absurd he (by simp)
    · next line rest hne hread =>
      rw [hread] at h
      obtain _ | ⟨b, line⟩ := line
      · exact absurd rfl hne
      split at he
      · next e' hscan =>
        exact Except.error.inj he ▸ scanLine_handled (h _ (List.mem_cons_self ..)) hscan
      · exact ih rest (fun l hl => h l (List.mem_cons_of_mem _ hl)) he

theorem raises_scanLocked : Raises FineAnswer scanLocked IsHandled := by
  refine (raises_sys (.call fun r _ => .ret r)).bind fun st => .ite (.raise rfl) ?_
  refine .call fun answer hfine => ?_
  cases answer with
  | error e => exact .raise rfl
  | ok ledger => exact .ofExcept fun e he => scanLines_handled _ _ hfine he

theorem raises_release : Raises FineAnswer release IsHandled :=
  (raises_sys (.call fun r _ => .ret r)).bind fun _ => raises_sys (.call fun r _ => .ret r)

theorem raises_openExisting : Raises FineAnswer NonceLedger.openExisting IsHandled :=
  (raises_sys (.call fun r _ => .ret r)).bind fun _ => .ret _

theorem raises_openOrCreate : Raises FineAnswer NonceLedger.openOrCreate IsHandled :=
  (raises_sys (.call fun r _ => .ret r)).handle (fun _ => .ret _) fun _ he =>
    .ite raises_openExisting (.raise he)

theorem raises_syncParent : Raises FineAnswer NonceLedger.syncParent IsHandled := by
  have hsync : Raises FineAnswer (do
      sys (ask .openParent)
      (sys (ask .fsyncParent)).tryFinally (sys (ask .closeParent))) IsHandled := by
    refine (raises_sys (.call fun r _ => .ret r)).bind fun _ => ?_
    exact .tryFinally (raises_sys (.call fun r _ => .ret r)) (raises_sys (.call fun r _ => .ret r))
  refine hsync.handle (fun _ => .ret _) fun e he => ?_
  exact (raises_sys (.call fun r _ => .ret r)).bind fun _ => .raise he

theorem raises_openDescriptor (create : Bool) :
    Raises FineAnswer (L.openDescriptor create) IsHandled := by
  have hparents : Raises FineAnswer L.parentErrors IsHandled := by
    unfold NonceLedger.parentErrors
    exact .ite (.call fun r _ => .ret r) (.ret _)
  refine hparents.bind fun errors => .ite (.raise rfl) ?_
  refine (Raises.ite raises_openOrCreate raises_openExisting).bind fun created => ?_
  refine (raises_sys (.call fun r _ => .ret r)).bind fun metadata => .ite ?_ ?_
  · exact (raises_sys (.call fun r _ => .ret r)).bind fun _ => .raise rfl
  · exact .ite raises_syncParent (.ret _)

theorem raises_validate : Raises FineAnswer L.validate IsHandled := by
  refine (raises_openDescriptor L false).bind fun _ => .tryFinally ?_ raises_release
  refine (raises_sys (.call fun r _ => .ret r)).bind fun _ => ?_
  exact raises_scanLocked.bind fun _ => .ret _

theorem raises_appendRecord (record : Bytes) :
    Raises FineAnswer (appendRecord record) IsHandled := by
  have hwrite (fuel : Nat) (value : Bytes) : Raises FineAnswer
    (writeAllLoop fuel value) IsHandled := by
    induction fuel generalizing value with
    | zero => exact .ret _
    | succ fuel ih =>
      refine .ite (.ret _) ?_
      refine (raises_sys (.call fun r _ => .ret r)).bind fun written => ?_
      exact .ite (.raise rfl) (ih _)
  refine (hwrite _ _).bind fun _ => ?_
  exact (raises_sys (.call fun r _ => .ret r)).bind fun _ => .ret _

/-- The ledger fails only with what is handled. -/
theorem raises_consume (nonce receiptSha256 operationPayloadSha256 : PyStr) :
    Raises FineAnswer (L.consume nonce receiptSha256 operationPayloadSha256) IsHandled := by
  refine (raises_openDescriptor L false).bind fun _ => .tryFinally ?_ raises_release
  refine (raises_sys (.call fun r _ => .ret r)).bind fun _ => .call fun now _ => ?_
  refine (Raises.ofExcept fun e he => ?_).bind fun record => ?_
  · unfold encodeRecord at he
    split at he
    · exact absurd he (by simp)
    · exact Except.error.inj he ▸ rfl
  · refine (raises_sys (.call fun r _ => .ret r)).bind fun st => .ite (.raise rfl) ?_
    exact raises_scanLocked.bind fun seen => .ite (.ret _) (raises_appendRecord record)

/-- A request within the limit ends with a reply or with an exception that is handled. -/
theorem raises_handleRequest {raw : Bytes} (h : nestsWithin Nesting.request raw = true) :
    Raises FineAnswer (handleRequest L raw) IsHandled := by
  refine (Raises.ofExcept fun e he => parseRequest_handled h he).bind fun m => ?_
  unfold answer
  split
  · exact .ret _
  · exact (raises_validate L).bind fun _ => .ret _
  · exact (raises_consume L _ _ _).bind fun _ => .ret _

/-- A sound connection is handled and closed. -/
theorem serveConnection_sound {c : Connection} (h : c.Sound) : serveConnection L c = .ok () := by
  have hraises : Raises FineAnswer (respond L c.received) fun _ => False := by
    have hrequest : Raises FineAnswer (do
        let raw ← Prog.ofExcept c.received
        handleRequest L raw) IsHandled := by
      cases hreceived : c.received with
      | error e => exact .raise (Connection.received_handled hreceived)
      | ok raw => exact raises_handleRequest L (h.request raw hreceived)
    refine hrequest.handle (fun _ => .ret _) fun e he => ?_
    rw [if_pos (show e.isOsOrValue = true from he)]
    refine .call fun logged hlogged => ?_
    obtain rfl : logged = .ok () := hlogged
    exact .ret _
  unfold serveConnection
  rw [h.closed]
  unfold handleConnection
  have hrun := runs_replied c.ledger [] (respond L c.received)
  cases hend : ((respond L c.received).replied c.ledger []).2 with
  | ok reply => rfl
  | error e =>
    rw [hend] at hrun
    refine absurd (hraises _ e hrun fun event hevent => ?_) id
    obtain ⟨past, hanswer⟩ := mem_replied hevent
    rw [← Sigma.eta event, hanswer]
    exact h.ledger past event.1

end Handling

/-! ## Failures in a row -/

/-- A connection or a timeout. -/
def Turn.isReset : Turn → Bool
  | .accepted _ => true
  | .timeout => true
  | _ => false

def Turn.isStop : Turn → Bool
  | .stop => true
  | _ => false

def Turn.isFailure : Turn → Bool
  | .failure _ _ => true
  | _ => false

/-- The number of failures since the last connection or timeout. -/
def failuresSince (turns : List Turn) : Nat :=
  (turns.reverse.takeWhile fun t => !t.isReset).countP Turn.isFailure

/-- The wait after this many failures in a row. -/
def waitAfter (failures : Nat) : ℚ := min maxAcceptBackoff (initialAcceptBackoff * 2 ^ failures)

/-- Enough failures with no connection and no timeout between them, and no stop request before the
last. -/
def TooManyFailures (turns : List Turn) : Prop :=
  ∃ before block rest, turns = before ++ block ++ rest ∧ (∀ t ∈ before ++ block, t.isStop = false)
    ∧ (∀ t ∈ block, t.isReset = false) ∧ block.countP Turn.isFailure = maxConsecutiveAcceptFailures

theorem failuresSince_concat_reset {t : Turn} (turns : List Turn) (h : t.isReset = true) :
    failuresSince (turns ++ [t]) = 0 := by
  simp [failuresSince, h]

theorem failuresSince_concat {t : Turn} (turns : List Turn) (h : t.isReset = false) :
    failuresSince (turns ++ [t]) = failuresSince turns + if t.isFailure then 1 else 0 := by
  unfold failuresSince
  rw [List.reverse_append, List.reverse_singleton, List.singleton_append,
    List.takeWhile_cons_of_pos (by simpa using h), List.countP_cons]

/-- The turns since the last connection or timeout. -/
theorem exists_block (turns : List Turn) : ∃ before block, turns = before ++ block
    ∧ (∀ t ∈ block, t.isReset = false) ∧ block.countP Turn.isFailure = failuresSince turns := by
  refine ⟨(turns.reverse.dropWhile fun t => !t.isReset).reverse,
    (turns.reverse.takeWhile fun t => !t.isReset).reverse,
    ?_, ?_, ?_⟩
  · rw [← List.reverse_append, List.takeWhile_append_dropWhile, List.reverse_reverse]
  · intro t ht
    simpa using List.mem_takeWhile_imp (List.mem_reverse.mp ht)
  · unfold failuresSince
    rw [List.countP_reverse]

/-- No block without a connection and a timeout at the end has more failures. -/
theorem countP_le_failuresSince (before : List Turn) {block : List Turn}
    (h : ∀ t ∈ block, t.isReset = false) :
    block.countP Turn.isFailure ≤ failuresSince (before ++ block) := by
  unfold failuresSince
  have hall : ∀ t ∈ block.reverse, (!t.isReset) = true := by
    intro t ht
    simpa using h t (List.mem_reverse.mp ht)
  rw [List.reverse_append, List.takeWhile_append_of_pos hall, List.countP_append,
    List.countP_reverse]
  omega

/-- A block that is too long was there before, or it ends with the last turn. -/
theorem TooManyFailures.concat_cases {turns : List Turn} {t : Turn}
    (h : TooManyFailures (turns ++ [t])) :
    TooManyFailures turns ∨ ((∀ t' ∈ turns, t'.isStop = false)
      ∧ maxConsecutiveAcceptFailures ≤ failuresSince (turns ++ [t])) := by
  obtain ⟨before, block, rest, heq, hgoing, hblock, hcount⟩ := h
  rcases List.eq_nil_or_concat' rest with rfl | ⟨rest', t', rfl⟩
  · right
    rw [List.append_nil] at heq
    rw [← heq] at hgoing
    refine ⟨fun t' ht' => hgoing t' (List.mem_append_left _ ht'), ?_⟩
    rw [heq, ← hcount]
    exact countP_le_failuresSince before hblock
  · left
    rw [← List.append_assoc] at heq
    exact ⟨before, block, rest', (List.append_inj' heq rfl).1, hgoing, hblock, hcount⟩

theorem TooManyFailures.concat {turns : List Turn} (h : TooManyFailures turns) (t : Turn) :
    TooManyFailures (turns ++ [t]) := by
  obtain ⟨before, block, rest, heq, hrest⟩ := h
  exact ⟨before, block, rest ++ [t], by rw [heq, List.append_assoc], hrest⟩

theorem not_tooManyFailures_nil : ¬ TooManyFailures [] := by
  rintro ⟨before, block, rest, heq, -, -, hcount⟩
  have hblock : block = [] := by
    have hnil := List.append_eq_nil_iff.mp heq.symm
    exact (List.append_eq_nil_iff.mp hnil.1).2
  rw [hblock] at hcount
  exact absurd hcount (by decide)

/-! ## The counter and the backoff -/

/-- What holds between two turns. -/
structure Counts (turns : List Turn) (l : AcceptLoop) : Prop where
  failures : l.consecutiveAcceptFailures = failuresSince turns
  backoff : l.acceptBackoff = waitAfter (failuresSince turns)
  few : failuresSince turns < maxConsecutiveAcceptFailures
  going : ∀ t ∈ turns, t.isStop = false
  never : ¬ TooManyFailures turns

theorem waitAfter_zero : waitAfter 0 = initialAcceptBackoff := by
  norm_num [waitAfter, maxAcceptBackoff, initialAcceptBackoff]

/-- A wait that is doubled and capped is the next one. -/
theorem waitAfter_succ (failures : Nat) : waitAfter (failures + 1)
    = min maxAcceptBackoff (waitAfter failures * 2) := by
  unfold waitAfter
  rw [min_mul_of_nonneg _ _ (by norm_num : (0 : ℚ) ≤ 2), ← min_assoc, pow_succ, ← mul_assoc]
  have hcap : min maxAcceptBackoff (maxAcceptBackoff * 2) = maxAcceptBackoff := by
    norm_num [maxAcceptBackoff]
  rw [hcap]

theorem counts_nil : Counts [] ⟨0, initialAcceptBackoff, []⟩ :=
  ⟨rfl, waitAfter_zero.symm, by decide, by simp, not_tooManyFailures_nil⟩

/-- A turn after which the count is still small keeps the history clean. -/
theorem Counts.concat {turns : List Turn} {l l' : AcceptLoop} (h : Counts turns l) {t : Turn}
    (hstop : t.isStop = false)
    (hfailures : l'.consecutiveAcceptFailures = failuresSince (turns ++ [t]))
    (hbackoff : l'.acceptBackoff = waitAfter (failuresSince (turns ++ [t])))
    (hfew : failuresSince (turns ++ [t]) < maxConsecutiveAcceptFailures) :
    Counts (turns ++ [t]) l' := by
  refine ⟨hfailures, hbackoff, hfew, ?_, ?_⟩
  · intro t' hmem
    rcases List.mem_append.mp hmem with hmem | hmem
    · exact h.going t' hmem
    · exact (List.mem_singleton.mp hmem) ▸ hstop
  · intro hmany
    rcases hmany.concat_cases with hmany | ⟨-, hmany⟩
    · exact h.never hmany
    · omega

/-- A connection or a timeout starts the count again. -/
theorem Counts.reset {turns : List Turn} {l : AcceptLoop} (h : Counts turns l) {t : Turn}
    (hreset : t.isReset = true)
    (hstop : t.isStop = false) (effects : List LoopEffect) :
    Counts (turns ++ [t]) ⟨0, initialAcceptBackoff, effects⟩ := by
  have hzero := failuresSince_concat_reset turns hreset
  refine h.concat hstop hzero.symm ?_ ?_
  · rw [hzero, waitAfter_zero]
  · rw [hzero]
    decide

/-- An interruption changes nothing. -/
theorem Counts.interrupted {turns : List Turn} {l : AcceptLoop} (h : Counts turns l) :
    Counts (turns ++ [.interrupted]) l := by
  have hsame : failuresSince (turns ++ [.interrupted]) = failuresSince turns :=
    failuresSince_concat turns rfl
  refine h.concat rfl ?_ ?_ ?_
  · rw [hsame]
    exact h.failures
  · rw [hsame]
    exact h.backoff
  · rw [hsame]
    exact h.few

section Runs

variable [Nesting] (L : NonceLedger)

/-- A failure counts one more, and the loop waits. -/
theorem Counts.failure {turns : List Turn} {l : AcceptLoop} (h : Counts turns l) (message : PyStr)
    (hfew : failuresSince turns + 1 < maxConsecutiveAcceptFailures) :
    ∃ l', l.turn L (.failure message (.ok ())) = .running l'
    ∧ Counts (turns ++ [.failure message (.ok ())]) l'
      ∧ l'.effects = l.effects
        ++ [.logged (failureLine (failuresSince turns + 1) message),
          .slept (waitAfter (failuresSince turns))] := by
  have hmore : failuresSince (turns ++ [.failure message (.ok ())]) = failuresSince turns + 1 :=
    failuresSince_concat turns rfl
  have hturn : l.turn L (.failure message (.ok ()))
    = .running ⟨failuresSince turns + 1, waitAfter (failuresSince turns + 1),
      l.effects ++ [.logged (failureLine (failuresSince turns + 1) message)]
        ++ [.slept (waitAfter (failuresSince turns))]⟩ := by
    unfold AcceptLoop.turn
    dsimp only
    rw [h.failures, h.backoff, if_neg (by omega), waitAfter_succ]
  refine ⟨_, hturn, h.concat rfl ?_ ?_ ?_, ?_⟩
  · rw [hmore]
  · rw [hmore]
  · rw [hmore]
    exact hfew
  · rw [List.append_assoc]
    rfl

theorem Counts.last_failure {turns : List Turn} {l : AcceptLoop} (h : Counts turns l)
    (message : PyStr)
    (hlast : maxConsecutiveAcceptFailures ≤ failuresSince turns + 1) :
    ∃ effects, l.turn L (.failure message (.ok ())) = .raised (.os .other) effects := by
  refine ⟨l.effects ++ [.logged (failureLine (failuresSince turns + 1) message)], ?_⟩
  unfold AcceptLoop.turn
  dsimp only
  rw [h.failures, if_pos hlast]

omit [Nesting] in
/-- The turns since the last connection or timeout are a block. -/
theorem Counts.tooMany {turns : List Turn} {l : AcceptLoop} (h : Counts turns l) (message : PyStr)
    (hlast : maxConsecutiveAcceptFailures ≤ failuresSince turns + 1) :
    TooManyFailures (turns ++ [.failure message (.ok ())]) := by
  obtain ⟨before, block, heq, hblock, hcount⟩ := exists_block turns
  refine ⟨before, block ++ [.failure message (.ok ())], [], ?_, ?_, ?_, ?_⟩
  · rw [heq, List.append_nil, List.append_assoc]
  · intro t ht
    rw [← List.append_assoc, ← heq] at ht
    rcases List.mem_append.mp ht with ht | ht
    · exact h.going t ht
    · rw [List.mem_singleton.mp ht]
      rfl
  · intro t ht
    rcases List.mem_append.mp ht with ht | ht
    · exact hblock t ht
    · rw [List.mem_singleton.mp ht]
      rfl
  · have hfew := h.few
    rw [List.countP_append, hcount]
    show failuresSince turns + 1 = maxConsecutiveAcceptFailures
    omega

/-! ## Whole runs -/

/-- The loop after some turns: it counts, it was asked to stop, or it has met too many failures. -/
inductive After (turns : List Turn) : Serving → Prop
  | running {l : AcceptLoop} (h : Counts turns l) : After turns (.running l)
  | stopped {effects : List LoopEffect} (hstop : ∃ t ∈ turns, t.isStop = true)
      (hnever : ¬ TooManyFailures turns) :
      After turns (.stopped effects)
  | gaveUp {effects : List LoopEffect} (h : TooManyFailures turns) :
      After turns (.raised (.os .other) effects)

/-- One turn of a loop that counts. -/
theorem Counts.turn {turns : List Turn} {l : AcceptLoop} (h : Counts turns l) {t : Turn}
    (ht : t.Sound) :
    After (turns ++ [t]) (l.turn L t) := by
  cases t with
  | stop =>
    refine .stopped ⟨.stop, by simp, rfl⟩ ?_
    intro hmany
    rcases hmany.concat_cases with hmany | ⟨-, hmany⟩
    · exact h.never hmany
    · have hsame : failuresSince (turns ++ [.stop]) = failuresSince turns :=
        failuresSince_concat turns rfl
      have hfew := h.few
      omega
  | accepted connection =>
    have hserved : l.turn L (.accepted connection)
      = .running ⟨0, initialAcceptBackoff, l.effects⟩ := by
      unfold AcceptLoop.turn
      dsimp only
      rw [serveConnection_sound L ht]
    rw [hserved]
    exact .running (h.reset rfl rfl l.effects)
  | timeout => exact .running (h.reset rfl rfl l.effects)
  | interrupted => exact .running h.interrupted
  | failure message logged =>
    obtain rfl : logged = .ok () := ht
    by_cases hfew : failuresSince turns + 1 < maxConsecutiveAcceptFailures
    · obtain ⟨l', hturn, hcounts, -⟩ := h.failure L message hfew
      rw [hturn]
      exact .running hcounts
    · obtain ⟨effects, hturn⟩ := h.last_failure L message (by omega)
      rw [hturn]
      exact .gaveUp (h.tooMany message (by omega))

/-- One turn, wherever the loop is. -/
theorem After.turn {turns : List Turn} {s : Serving} (h : After turns s) {t : Turn} (ht : t.Sound) :
    After (turns ++ [t]) (s.turn L t) := by
  cases h with
  | running h => exact h.turn L ht
  | stopped hstop hnever =>
    obtain ⟨t', ht', hstop⟩ := hstop
    refine .stopped ⟨t', List.mem_append_left _ ht', hstop⟩ ?_
    intro hmany
    rcases hmany.concat_cases with hmany | ⟨hgoing, -⟩
    · exact hnever hmany
    · exact absurd (hgoing t' ht') (by rw [hstop]; decide)
  | gaveUp h => exact .gaveUp (h.concat t)

theorem serveRequests_concat (turns : List Turn) (t : Turn) :
    serveRequests L (turns ++ [t]) = (serveRequests L turns).turn L t := by
  unfold serveRequests
  rw [List.foldl_append]
  rfl

/-- Every run. -/
theorem after_serveRequests {turns : List Turn} (h : ∀ t ∈ turns, t.Sound) :
    After turns (serveRequests L turns) := by
  -- From the last turn backwards; the invariant of the turns before it is `After`.
  induction turns using List.reverseRecOn with
  | nil => exact .running counts_nil
  | append_singleton turns t ih =>
    rw [serveRequests_concat]
    exact (ih fun t' ht' => h t' (List.mem_append_left _ ht')).turn L (h t (by simp))

/-- **The accounting of accept failures.** Where every request and the ledger nest within the limits
and neither the log nor a close fails, the loop raises exactly when there are too many failures; an
interruption leaves it as it is, and the waits of a row of failures double up to the cap. -/
theorem gives_up_iff {turns : List Turn} (h : ∀ t ∈ turns, t.Sound) :
    ((∃ e effects, serveRequests L turns = .raised e effects) ↔ TooManyFailures turns)
      ∧ (∀ before rest l, turns = before ++ .interrupted :: rest →
        serveRequests L before = .running l
        → serveRequests L (before ++ [.interrupted]) = .running l)
      ∧ (∀ before message rest l, turns = before ++ .failure message (.ok ()) :: rest
        → serveRequests L before = .running l → failuresSince before + 1
          < maxConsecutiveAcceptFailures
        → ∃ l', serveRequests L (before ++ [.failure message (.ok ())]) = .running l'
          ∧ l'.effects = l.effects ++ [.logged (failureLine (failuresSince before + 1) message),
            .slept (waitAfter (failuresSince before))])
      ∧ waitAfter 0 = initialAcceptBackoff
      ∧ ∀ failures, waitAfter (failures + 1) = min maxAcceptBackoff (waitAfter failures * 2) := by
  refine ⟨⟨?_, ?_⟩, ?_, ?_, waitAfter_zero, waitAfter_succ⟩
  · rintro ⟨e, effects, hraised⟩
    have hafter := after_serveRequests L h
    rw [hraised] at hafter
    cases hafter with
    | gaveUp hmany => exact hmany
  · intro hmany
    generalize hs : serveRequests L turns = s
    have hafter := after_serveRequests L h
    rw [hs] at hafter
    cases hafter with
    | running hcounts => exact absurd hmany hcounts.never
    | stopped hstop hnever => exact absurd hmany hnever
    | gaveUp hmany => exact ⟨_, _, rfl⟩
  · intro before rest l heq hrun
    rw [serveRequests_concat, hrun]
    rfl
  · intro before message rest l heq hrun hfew
    have hafter := after_serveRequests L fun t ht => h t (heq ▸ List.mem_append_left _ ht)
    rw [hrun] at hafter
    cases hafter with
    | running hcounts =>
      obtain ⟨l', hturn, -, heffects⟩ := hcounts.failure L message hfew
      refine ⟨l', ?_, heffects⟩
      rw [serveRequests_concat, hrun]
      exact hturn

end Runs

/-! ## A client that sends a line -/

/-- The client sends these bytes and half-closes; the clock stands still. -/
def sending (line : Bytes) : List (Event socketSig) → (o : SocketOp) → socketSig.Resp o
  | _, .monotonic => (0 : Int)
  | past, .recv size => .ok ((line.drop (chunksOf past).flatten.length).take size)

/-- The chunks of a run are those of its parts. -/
theorem chunksOf_append (t t' : List (Event socketSig)) :
    chunksOf (t ++ t') = chunksOf t ++ chunksOf t' := by
  induction t with
  | nil => rfl
  | cons e t ih =>
    obtain ⟨o, answer⟩ := e
    cases o with
    | monotonic => exact ih
    | recv size =>
      cases answer with
      | ok chunk => exact congrArg (chunk :: ·) ih
      | error e => exact ih

/-- The reading loop on a line of which some has been read. -/
theorem receiveLoop_sending {line : Bytes} (hl : line.length ≤ maxRequestBytes) (fuel : Nat)
    (value : Bytes) (past : List (Event socketSig)) (hvalue : value <+: line)
    (hread : (chunksOf past).flatten.length = value.length)
    (hfuel : line.length < fuel + value.length) :
    ((receiveLoop requestReadDeadline fuel value).replied (sending line) past).2
    = checkRequest line := by
  induction fuel generalizing value past with
  | zero =>
    have := hvalue.length_le
    omega
  | succ fuel ih =>
    obtain ⟨rest, rfl⟩ := hvalue
    rw [List.length_append] at hl hfuel
    have hcheck (b : Bytes) (t : List (Event socketSig)) :
        ((Prog.ofExcept (checkRequest b) : SocketProg Bytes).replied (sending (value ++ rest)) t).2
          = checkRequest b := by
      cases checkRequest b <;> rfl
    generalize hsize : min 512 (maxRequestBytes + 1 - value.length) = size
    have hpos : 0 < size := by omega
    have hchunk : sending (value ++ rest) (past ++ [⟨.monotonic, (0 : Int)⟩]) (.recv size)
        = (.ok (rest.take size) : Sys Bytes) := by
      unfold sending
      dsimp only
      rw [chunksOf_append, show chunksOf [⟨.monotonic, (0 : Int)⟩] = [] from rfl, List.append_nil,
        hread, List.drop_left]
    show (((sys (askSocket (.recv (min 512 (maxRequestBytes + 1 - value.length))))).handle _
      .raise).replied
      (sending (value ++ rest)) (past ++ [⟨.monotonic, (0 : Int)⟩])).2 = _
    rw [hsize]
    show ((((match sending (value ++ rest) (past ++ [⟨.monotonic, (0 : Int)⟩]) (.recv size) with
      | .ok chunk => .ret chunk
      | .error e => .raise (.os e) : SocketProg Bytes)).handle _ .raise).replied _ _).2 = _
    rw [hchunk]
    dsimp only
    rw [Prog.handle_ret]
    by_cases hend : rest.take size = []
    · rw [if_pos hend, hcheck]
      rcases List.take_eq_nil_iff.mp hend with hzero | rfl
      · omega
      · rw [List.append_nil]
    · have hlength := List.length_take_le size rest
      have htake : (rest.take size).length ≤ rest.length := by simp
      rw [if_neg hend, if_neg (by rw [List.length_append]; omega)]
      refine ih (value ++ rest.take size) _ ?_ ?_ ?_
      · exact (List.prefix_append_right_inj value).mpr (List.take_prefix size rest)
      · rw [chunksOf_append, chunksOf_append]
        simp [chunksOf, hread]
      · have hne := List.length_pos_iff.mpr hend
        rw [List.length_append, List.length_append]
        omega

/-- The client's first answer is the clock. -/
theorem replied_monotonic (line : Bytes) (k : Int → SocketProg Bytes)
    (past : List (Event socketSig)) :
    (Prog.replied (sending line) past (.call .monotonic k)).2
      = (Prog.replied (sending line) (past ++ [⟨.monotonic, (0 : Int)⟩]) (k 0)).2 := rfl

/-- A line within the size limit is received as it was sent. -/
theorem received_sending {line : Bytes} (hl : line.length ≤ maxRequestBytes)
    (ledger : List (Event ledgerSig) → (o : LedgerOp) → ledgerSig.Resp o) (closed : Sys Unit) :
    (Connection.mk (sending line) ledger closed).received = checkRequest line := by
  have hfuel : line.length < maxRequestBytes + 1 + ([] : Bytes).length := by
    rw [List.length_nil]
    omega
  have hfirst : receiveRequest
      = .call .monotonic fun now => receiveLoop (now + requestReadDeadline)
        (maxRequestBytes + 1) [] := rfl
  unfold Connection.received
  rw [hfirst, replied_monotonic, zero_add]
  exact receiveLoop_sending hl _ [] _ List.nil_prefix rfl hfuel

/-- A line of the ledger. -/
def workingRecord : Bytes :=
  (encodeRecord (lit "nonce-000001") (List.replicate 64 (digitCp 0)) (List.replicate 64 (digitCp 1))
    sampleTime).toOption.getD []

/-- A ledger with one record, on which every call succeeds. -/
def workingLedger : List (Event ledgerSig) → (o : LedgerOp) → ledgerSig.Resp o
  | _, .rootOwnedDirectoryErrors => []
  | _, .fstat => .ok ⟨true, 1, 0, 0o600, 100⟩
  | _, .readLedger => .ok workingRecord
  | _, .now => sampleTime
  | _, .write chunk => .ok chunk.length
  | _, .createLedger => .ok ()
  | _, .openLedger => .ok ()
  | _, .openParent => .ok ()
  | _, .fsyncParent => .ok ()
  | _, .closeParent => .ok ()
  | _, .flock _ => .ok ()
  | _, .fsync => .ok ()
  | _, .close => .ok ()
  | _, .log _ => .ok ()

theorem workingLedger_nests :
    ∀ line ∈ ledgerLines workingRecord.length workingRecord, nestsWithin Nesting.record line
    = true := by
  decide +kernel

theorem workingLedger_fine (past : List (Event ledgerSig)) (o : LedgerOp) :
    FineAnswer ⟨o, workingLedger past o⟩ := by
  cases o with
  | readLedger => exact workingLedger_nests
  | log message => rfl
  | _ => trivial

/-- A client that consumes a nonce. -/
def sampleConnection : Connection :=
  ⟨sending (consumeLine (lit "nonce-000000")), workingLedger, .ok ()⟩

theorem sampleConnection_sound : sampleConnection.Sound where
  request := by
    have hreceived : sampleConnection.received = checkRequest (consumeLine (lit "nonce-000000")) :=
      received_sending (by decide +kernel) _ _
    have hnests : (match checkRequest (consumeLine (lit "nonce-000000")) with
      | .ok raw => nestsWithin Nesting.request raw
      | .error _ => true) = true := by decide +kernel
    intro raw hraw
    rw [← hreceived, hraw] at hnests
    exact hnests
  ledger := workingLedger_fine
  closed := rfl

/-- Four failures, an interruption, a client, and five failures with an interruption between
them. -/
def sampleTurns : List Turn :=
  List.replicate 4 (.failure (lit "EMFILE") (.ok ())) ++ [.interrupted, .accepted sampleConnection]
    ++ List.replicate 4 (.failure (lit "EMFILE") (.ok ()))
      ++ [.interrupted, .failure (lit "ENFILE") (.ok ())]

/-- The four failures before the client do not count, the interruption does not reset. -/
theorem gives_up_iff_sample :
    ((∃ e effects, serveRequests ⟨0, true⟩ sampleTurns = .raised e effects) ↔
      TooManyFailures sampleTurns)
      ∧ TooManyFailures sampleTurns := by
  have hsound : ∀ t ∈ sampleTurns, t.Sound := by
    intro t ht
    simp only [sampleTurns, List.mem_append, List.mem_cons, List.mem_replicate, List.not_mem_nil,
      or_false] at ht
    rcases ht with ((⟨-, rfl⟩ | rfl | rfl) | ⟨-, rfl⟩) | rfl | rfl
    · rfl
    · trivial
    · exact sampleConnection_sound
    · rfl
    · trivial
    · rfl
  refine ⟨(gives_up_iff ⟨0, true⟩ hsound).1, ?_⟩
  exact ⟨sampleTurns.take 6, sampleTurns.drop 6, [], rfl, by decide, by decide, by decide⟩

/-! ## A request that ends the service -/

/-- More opening brackets than the parser descends into. -/
theorem parseValue_brackets (limit more : Nat) :
    parseValue limit (List.replicate (limit + 1 + more) (cp 0x5B)) = .error .recursion := by
  induction limit with
  | zero =>
    rw [Nat.zero_add, Nat.add_comm, List.replicate_succ]
    rfl
  | succ limit ih =>
    have hlength : limit + 1 + 1 + more = (limit + more + 1) + 1 := by omega
    rw [show limit + 1 + more = limit + more + 1 by omega, List.replicate_succ] at ih
    rw [hlength, List.replicate_succ, List.replicate_succ]
    show ((parseElems (parseValue limit) (cp 0x5B :: List.replicate (limit + more) (cp 0x5B)).length
      (cp 0x5B :: List.replicate (limit + more) (cp 0x5B))).map fun r => (Json.arr r.1, r.2)) = _
    rw [List.length_cons]
    unfold parseElems
    rw [ih]
    rfl

/-- A line of this many opening brackets. -/
def bracketLine (count : Nat) : Bytes := List.replicate count (byte 0x5B) ++ [newline]

/-- Brackets are decoded as brackets. -/
theorem utf8Decode_brackets (count : Nat) :
    utf8Decode (List.replicate count (byte 0x5B)) = some (List.replicate count (cp 0x5B)) := by
  induction count with
  | zero => rfl
  | succ count ih =>
    rw [List.replicate_succ, List.replicate_succ]
    have hone : utf8Decode ([byte 0x5B] ++ List.replicate count (byte 0x5B))
        = (utf8Decode (List.replicate count (byte 0x5B))).map ([cp 0x5B] ++ ·) :=
      utf8Decode_append (by rfl) _
    rw [List.singleton_append] at hone
    rw [hone, ih]
    rfl

theorem count_bracketLine (count : Nat) : (bracketLine count).count newline = 1 := by
  unfold bracketLine
  rw [List.count_append, List.count_eq_zero_of_not_mem]
  · rfl
  · intro hmem
    exact absurd (List.eq_of_mem_replicate hmem) (by decide)

theorem length_bracketLine (count : Nat) : (bracketLine count).length = count + 1 := by
  unfold bracketLine
  rw [List.length_append, List.length_replicate]
  rfl

theorem getLast_bracketLine (count : Nat) : (bracketLine count).getLast? = some newline := by
  unfold bracketLine
  rw [List.getLast?_concat]

/-- One bracket too many, and the reader gives up with a `RecursionError`. -/
theorem parseRequest_brackets [Nesting] (more : Nat) :
    parseRequest (bracketLine (Nesting.request + 1 + more)) = .error .recursion := by
  have hcons : List.replicate (Nesting.request + 1 + more) (cp 0x5B)
      = cp 0x5B :: List.replicate (Nesting.request + more) (cp 0x5B) := by
    rw [show Nesting.request + 1 + more = Nesting.request + more + 1 by omega, List.replicate_succ]
  have hparse : loads Nesting.request (List.replicate (Nesting.request + 1 + more) (cp 0x5B))
    = .error .recursion := by
    have hspace : skipWs (List.replicate (Nesting.request + 1 + more) (cp 0x5B))
        = List.replicate (Nesting.request + 1 + more) (cp 0x5B) := by
      rw [hcons]
      rfl
    have hmark : (List.replicate (Nesting.request + 1 + more) (cp 0x5B)).head?
      ≠ some (cp 0xFEFF) := by
      rw [hcons, List.head?_cons]
      decide
    unfold loads parse
    rw [if_neg hmark, hspace, parseValue_brackets]
    rfl
  have hdecode : utf8Decode (bracketLine (Nesting.request + 1 + more)).dropLast
      = some (List.replicate (Nesting.request + 1 + more) (cp 0x5B)) := by
    unfold bracketLine
    rw [List.dropLast_concat, utf8Decode_brackets]
  unfold parseRequest
  rw [if_neg (by rw [getLast_bracketLine, count_bracketLine]; simp), hdecode]
  dsimp only
  rw [hparse]
  rfl

/-- The size limit allows such a line. -/
theorem checkRequest_bracketLine {count : Nat} (h : count + 1 ≤ maxRequestBytes) :
    checkRequest (bracketLine count) = .ok (bracketLine count) := by
  have hlength := length_bracketLine count
  unfold checkRequest
  rw [if_neg (by omega), if_neg (by rw [getLast_bracketLine, count_bracketLine]; simp)]

/-- Neither `except` clause of `_handle_connection` takes the `RecursionError`. -/
theorem respond_brackets [Nesting] (L : NonceLedger) (more : Nat) :
    respond L (.ok (bracketLine (Nesting.request + 1 + more))) = .raise .recursion := by
  unfold respond handleRequest
  show ((Prog.ofExcept (parseRequest (bracketLine (Nesting.request + 1 + more)))).bind _).handle _ _
    = _
  rw [parseRequest_brackets]
  rfl

theorem serveConnection_brackets [Nesting] (L : NonceLedger) (more : Nat) {c : Connection}
    (h : c.received = .ok (bracketLine (Nesting.request + 1 + more)))
    (hclosed : c.closed = .ok ()) :
    serveConnection L c = .error .recursion := by
  unfold serveConnection handleConnection
  rw [hclosed, h, respond_brackets]
  rfl

/-- A client whose request nests deeper than the limit, on a Broker on which no call fails. -/
def deepConnection : Connection := ⟨sending (bracketLine 1001), workingLedger, .ok ()⟩

theorem deepConnection_received : deepConnection.received = .ok (bracketLine 1001) :=
  (received_sending (by rw [length_bracketLine]; decide) _ _).trans
    (checkRequest_bracketLine (by decide))

/-- One request of 1002 bytes ends the loop with an error, although `accept` never failed. -/
theorem deep_request_ends_service :
    serveRequests ⟨0, true⟩ [.accepted deepConnection] = .raised .recursion []
      ∧ ¬ TooManyFailures [.accepted deepConnection] := by
  have hreceived : deepConnection.received = .ok (bracketLine (Nesting.request + 1 + 0)) :=
    deepConnection_received.trans (congrArg (fun count => Except.ok (bracketLine count))
      (rfl : 1001 = _))
  refine ⟨?_, ?_⟩
  · unfold serveRequests
    rw [List.foldl_cons, List.foldl_nil]
    unfold Serving.turn AcceptLoop.turn
    dsimp only
    rw [serveConnection_brackets _ 0 hreceived rfl]
  · intro hmany
    rcases @TooManyFailures.concat_cases [] _ hmany with hmany | ⟨-, hmany⟩
    · exact not_tooManyFailures_nil hmany
    · exact absurd hmany (by decide)

end SddGov.Broker
