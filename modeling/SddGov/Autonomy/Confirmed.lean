import SddGov.Autonomy.Verified
import SddGov.Broker.Delivery
import SddGov.Effect.Machine

/-!
# What the Broker has confirmed

The Broker is seen through the socket only. `Connection.after` follows one
connection: the request bytes that went out, the reply bytes that came in, and
at the end of the stream the nonce that was confirmed, where the reply is
`CONSUMED`. `confirmed` lists these nonces for the calls of one thread, so that
"each nonce is answered `CONSUMED` at most once" is a condition on histories
(`ConsumesOnce`) that names nothing of the Broker's own.
-/

namespace SddGov.Autonomy

open SddGov.Effect SddGov.Python SddGov.Governance
open SddGov.Broker (consumed parseRequest requestLine parseRequest_requestLine)

/-! ## Connections -/

/-- What was sent and received on a connection so far. -/
structure Connection where
  request : Bytes
  reply : Bytes

/-- A connection on which nothing happened yet. -/
def Connection.unused : Connection := ⟨[], []⟩

/-- The nonce a request line is about. -/
def lineNonce (line : Bytes) : Option PyStr :=
  match parseRequest line with
  | .error _ => none
  | .ok m =>
    match get (lit "nonce") m with
    | .str nonce => some nonce
    | _ => none

theorem lineNonce_requestLine {nonce receiptSha256 operationPayloadSha256 : PyStr} {line : Bytes}
    (h : requestLine nonce receiptSha256 operationPayloadSha256 = some line) :
    lineNonce line = some nonce := by
  unfold lineNonce
  rw [parseRequest_requestLine h]
  rfl

/-- The nonce that is confirmed if the reply ends here. -/
def Connection.confirms (c : Connection) : Option PyStr :=
  if c.reply = consumed then lineNonce c.request else none

/-- The connection after an event, and the nonce the event confirmed. -/
def Connection.after (c : Connection) : Event hostSig → Connection × Option PyStr
  | ⟨.connectBroker, _⟩ => (.unused, none)
  | ⟨.sendAll request, .ok ()⟩ => ({ c with request := c.request ++ request }, none)
  -- no bytes: the stream has ended, and with it the connection
  | ⟨.recv _, .ok []⟩ => (.unused, c.confirms)
  | ⟨.recv _, .ok (b :: chunk)⟩ => ({ c with reply := c.reply ++ b :: chunk }, none)
  | _ => (c, none)

/-- The connection at the end of a trace. -/
def Connection.atEnd (c : Connection) (t : List (Event hostSig)) : Connection :=
  t.foldl (fun c e => (c.after e).1) c

/-- The nonces confirmed along a trace. -/
def confirmedOn : Connection → List (Event hostSig) → List PyStr
  | _, [] => []
  | c, e :: t => (c.after e).2.toList ++ confirmedOn (c.after e).1 t

/-- The nonces confirmed to one thread. -/
def confirmed (t : List (Event hostSig)) : List PyStr := confirmedOn .unused t

theorem confirmedOn_append (c : Connection) (t₁ t₂ : List (Event hostSig)) :
    confirmedOn c (t₁ ++ t₂) = confirmedOn c t₁ ++ confirmedOn (c.atEnd t₁) t₂ := by
  induction t₁ generalizing c with
  | nil => rfl
  | cons e t₁ ih =>
    show (c.after e).2.toList ++ confirmedOn (c.after e).1 (t₁ ++ t₂) = _
    rw [ih, ← List.append_assoc]
    rfl

/-- What a part of a trace confirms on every connection, the whole trace confirms. -/
theorem mem_confirmed_of_part {nonce : PyStr} {t₁ t₂ t₃ : List (Event hostSig)}
    (h : ∀ c, nonce ∈ confirmedOn c t₂) : nonce ∈ confirmed (t₁ ++ t₂ ++ t₃) := by
  unfold confirmed
  rw [confirmedOn_append, confirmedOn_append]
  apply List.mem_append_left
  apply List.mem_append_right
  exact h _

/-! ## A successful consumption is confirmed -/

variable {t : List (Event hostSig)} {nonce : PyStr}

/-- Where the reading loop returns `CONSUMED`, the stream has ended after it. -/
theorem recvLoop_confirmed {fuel : Nat} {c : Connection}
    (h : Runs (recvLoop fuel c.reply) t (.ok (some consumed)))
    (hfuel : consumed.length + 2 ≤ fuel + c.reply.length) (hn : lineNonce c.request = some nonce) :
    nonce ∈ confirmedOn c t := by
  induction fuel generalizing t c with
  | zero =>
    -- more bytes than the reply has
    have hr : some consumed = some c.reply := Except.ok.inj (runs_ret h).2
    rw [← Option.some.inj hr] at hfuel
    omega
  | succ fuel ih =>
    unfold recvLoop at h
    split at h
    · next hlong =>
      have hr : some consumed = some c.reply := Except.ok.inj (runs_ret h).2
      rw [← Option.some.inj hr] at hlong
      omega
    · obtain ⟨t₁, t₂, chunk, rfl, h₁, h₂⟩ := runs_bind h
      obtain ⟨r, rfl, hr⟩ := runs_ask (runs_sys h₁)
      obtain rfl := Except.ok.inj hr
      cases chunk with
      | nil =>
        rw [if_pos rfl] at h₂
        have hr : some consumed = some c.reply := Except.ok.inj (runs_ret h₂).2
        apply List.mem_append_left
        show nonce ∈ (c.confirms).toList
        unfold Connection.confirms
        rw [if_pos (Option.some.inj hr).symm, hn]
        exact List.mem_singleton.mpr rfl
      | cons b chunk =>
        rw [if_neg (by simp)] at h₂
        split at h₂
        · exact absurd (Except.ok.inj (runs_ret h₂).2) (by simp)
        · have hlen : (c.reply ++ b :: chunk).length = c.reply.length + chunk.length + 1 := by
            simp only [List.length_append, List.length_cons]
            omega
          apply List.mem_append_right
          refine @ih t₂ { c with reply := c.reply ++ b :: chunk } h₂ ?_ hn
          dsimp only
          omega

/-- A client that says yes has read the line with its nonce on that connection. -/
theorem talk_confirmed {request : Bytes} (h : Runs (talk request) t (.ok true))
    (hn : lineNonce request = some nonce) (c : Connection) : nonce ∈ confirmedOn c t := by
  obtain ⟨t₁, t₂, u, rfl, hconnect, h⟩ := runs_bind h
  obtain ⟨t₃, t₄, u, rfl, hsend, h⟩ := runs_bind h
  obtain ⟨t₅, t₆, u, rfl, hshut, h⟩ := runs_bind h
  obtain ⟨t₇, t₈, response, rfl, hrecv, h⟩ := runs_bind h
  have hresponse : (response == some consumed) = true := (Except.ok.inj (runs_ret h).2).symm
  rw [beq_iff_eq.mp hresponse] at hrecv
  obtain ⟨_, rfl, -⟩ := runs_ask (runs_sys hconnect)
  obtain ⟨_, rfl, hr⟩ := runs_ask (runs_sys hsend)
  obtain rfl := Except.ok.inj hr
  obtain ⟨_, rfl, -⟩ := runs_ask (runs_sys hshut)
  -- the connection is new, and the whole request has been sent
  show nonce ∈ confirmedOn ⟨request, []⟩ (t₇ ++ t₈)
  rw [confirmedOn_append]
  apply List.mem_append_left
  exact @recvLoop_confirmed t₇ nonce _ ⟨request, []⟩ hrecv (by simp) hn

/-- An error of the socket is a no, so a yes is the answer of the program inside. -/
theorem runs_falseOnOsError {p : HostProg Bool} (h : Runs (falseOnOsError p) t (.ok true)) :
    Runs p t (.ok true) := by
  obtain ⟨t₁, t₂, y, rfl, h₁, h₂⟩ := runs_handle h
  cases y with
  | ok b =>
    obtain ⟨rfl, hb⟩ := runs_ret h₂
    obtain rfl := Except.ok.inj hb
    rw [List.append_nil]
    exact h₁
  | error e =>
    -- the answer to an `OSError` is `False`, and anything else is raised again
    cases e with
    | os e => exact absurd (Except.ok.inj (runs_ret h₂).2) (by simp)
    | _ => exact absurd (runs_raise h₂).2 (by simp)

/-- **A consumption that succeeds was confirmed** to the thread that made it. -/
theorem consumeNonce_confirmed {receiptSha256 operationPayloadSha256 : PyStr}
    (h : Runs (consumeNonceViaControlPlane nonce receiptSha256 operationPayloadSha256) t (.ok true))
    (c : Connection) : nonce ∈ confirmedOn c t := by
  obtain ⟨t₁, t₂, reachable, rfl, -, h⟩ := runs_bind h
  cases reachable with
  | false => exact absurd (Except.ok.inj (runs_ret h).2) (by simp)
  | true =>
    obtain ⟨t₃, t₄, request, rfl, hencode, h⟩ := runs_bind h
    have hline := (runs_ofExcept hencode).2
    unfold encodeRequest at hline
    split at hline
    · exact absurd hline (by simp)
    · next line hsome =>
      obtain rfl := Except.ok.inj hline
      have hn := lineNonce_requestLine hsome
      obtain ⟨t₅, t₆, rfl, htalk, -⟩ := runs_tryFinally (runs_falseOnOsError h)
      rw [confirmedOn_append, confirmedOn_append, confirmedOn_append]
      apply List.mem_append_right
      apply List.mem_append_right
      apply List.mem_append_left
      exact talk_confirmed htalk hn _

/-! ## Each nonce at most once -/

variable {ι : Type} [DecidableEq ι]

/-- No nonce is confirmed twice, to one thread or to two. -/
def ConsumesOnce (log : List (ι × Event hostSig)) : Prop :=
  (∀ i, (confirmed (eventsOf i log)).Nodup)
    ∧ ∀ i j nonce, nonce ∈ confirmed (eventsOf i log) → nonce ∈ confirmed (eventsOf j log) → i = j

/-- Any number of programs on any host at all: clocks, files, trust stores and sockets answer
as they like, the decision store is whatever is read, and only the Broker keeps its word. -/
def agentSem (ι : Type) [DecidableEq ι] : Sem ι (List (ι × Event hostSig)) hostSig :=
  Sem.history fun i log o r => ConsumesOnce (log ++ [(i, ⟨o, r⟩)])

theorem agentSem_once {ε α : Type} {c c' : Conf ι (List (ι × Event hostSig)) hostSig ε α}
    (h : (agentSem ι).Reach c c') (h0 : c.world = []) : ConsumesOnce c'.world := by
  have hnil : ConsumesOnce ([] : List (ι × Event hostSig)) :=
    ⟨fun _ => List.nodup_nil, fun _ _ _ h => absurd h (by simp [confirmed, confirmedOn, eventsOf])⟩
  exact Sem.history_inv (fun _ _ _ _ ha => ha) h (h0 ▸ hnil)

/-- A thread alone keeps the promise along a trace that confirms no nonce twice. -/
theorem agentSem_alone {t t₁ t₂ : List (Event hostSig)} {e : Event hostSig}
    (h : (confirmed t).Nodup) (ht : t = t₁ ++ e :: t₂) :
    ConsumesOnce (([] : List (Unit × Event hostSig)) ++ t₁.map ((), ·) ++ [((), ⟨e.1, e.2⟩)]) := by
  refine ⟨fun i => ?_, fun _ _ _ _ _ => rfl⟩
  have hevents : eventsOf i (([] : List (Unit × Event hostSig)) ++ t₁.map ((), ·)
    ++ [((), ⟨e.1, e.2⟩)])
      = t₁ ++ [e] := by
    simp [eventsOf, List.filter_map, Function.comp_def]
  have hsplit : t = (t₁ ++ [e]) ++ t₂ := by rw [ht, List.append_assoc]; rfl
  rw [hevents]
  unfold confirmed at h ⊢
  rw [hsplit, confirmedOn_append] at h
  exact h.of_append_left

end SddGov.Autonomy
