import SddGov.Autonomy.DecisionStore
import SddGov.Broker.Delivery

/-!
# Framing on the Broker's socket

A `recv` takes some bytes off the front of what is left of a stream, at most as
many as were asked for, and none only at its end (`IsChunk`). However a stream is
cut, `_receive_request` comes to the check of the whole stream
(`receive_served`), and the reading loop of `_consume_nonce_via_control_plane` to
its first bytes (`recvLoop_replied`); so what is accepted depends on the stream
alone (`framing_independent`).
-/

namespace SddGov.Autonomy

open SddGov.Effect SddGov.Python SddGov.Governance
open SddGov.Broker (socketSig receiveRequest receiveLoop checkRequest maxRequestBytes
  requestReadDeadline newline consumed
  clockOf)

/-! ## Streams -/

/-- What one `recv` of this size takes off the bytes that are left. -/
structure IsChunk (left : Bytes) (size : Nat) (chunk rest : Bytes) : Prop where
  front : left = chunk ++ rest
  bounded : chunk.length ≤ size
  progress : chunk = [] → left = [] ∨ size = 0

/-- The reads of the Broker serve this stream, and none of them fails. -/
def Serves : Bytes → List (Event socketSig) → Prop
  | _, [] => True
  | left, ⟨.recv size, .ok chunk⟩ :: t => ∃ rest, IsChunk left size chunk rest ∧ Serves rest t
  | _, ⟨.recv _, .error _⟩ :: _ => False
  | left, _ :: t => Serves left t

/-- Every reading of the clock after the first is before the deadline. -/
def Timely (t : List (Event socketSig)) : Prop :=
  ∀ start rest, clockOf t = start :: rest → ∀ now ∈ rest, now < start + requestReadDeadline

/-- The reads of the client serve this stream; a failed one takes nothing. -/
def Replies : Bytes → List (Event hostSig) → Prop
  | _, [] => True
  | left, ⟨.recv size, .ok chunk⟩ :: t => ∃ rest, IsChunk left size chunk rest ∧ Replies rest t
  | left, _ :: t => Replies left t

/-- No call on the client's socket fails. -/
def SocketOk : Event hostSig → Prop
  | ⟨.connectBroker, .error _⟩ => False
  | ⟨.sendAll _, .error _⟩ => False
  | ⟨.shutdownWrite, .error _⟩ => False
  | ⟨.recv _, .error _⟩ => False
  | ⟨.closeSocket, .error _⟩ => False
  | _ => True

/-- At most `MAX_REQUEST_BYTES` with one newline, at the end. -/
def IsRecord (stream : Bytes) : Prop :=
  stream.length ≤ maxRequestBytes ∧ stream.count newline = 1 ∧ stream.getLast? = some newline

/-! ## The Broker -/

/-- A request is taken as it is, if it is a record. -/
theorem checkRequest_ok_iff {stream value : Bytes} :
    checkRequest stream = .ok value ↔ value = stream ∧ IsRecord stream := by
  unfold checkRequest IsRecord
  constructor
  · intro h
    split at h
    · cases h
    · next hlength =>
      split at h
      · cases h
      · next hframe =>
        rw [not_or, not_not, not_not] at hframe
        obtain rfl := Except.ok.inj h
        exact ⟨rfl, by omega, hframe.1, hframe.2⟩
  · rintro ⟨rfl, hlength, hcount, hlast⟩
    rw [if_neg (by omega), if_neg (by rw [hcount, hlast]; simp)]

/-- A stream beyond the limit is refused for its first bytes already. -/
theorem checkRequest_long {front rest : Bytes} (h : maxRequestBytes < front.length) :
    checkRequest front = checkRequest (front ++ rest) := by
  unfold checkRequest
  rw [if_pos h, if_pos (by rw [List.length_append]; omega)]

/-- The reading loop on what is left of the stream. -/
theorem receiveLoop_served {deadline : Int} {stream : Bytes} {fuel : Nat} {value left : Bytes}
    {t : List (Event socketSig)} {x : Outcome Exn Bytes}
    (h : Runs (receiveLoop deadline fuel value) t x)
    (hstream : value ++ left = stream) (hvalue : value.length ≤ maxRequestBytes)
    (hfuel : maxRequestBytes + 1 ≤ fuel + value.length) (hs : Serves left t)
    (ht : ∀ now ∈ clockOf t, now < deadline) :
    x = checkRequest stream := by
  induction fuel generalizing value left t with
  | zero => omega
  | succ fuel ih =>
    obtain ⟨now, t, rfl, h1⟩ := runs_call h
    have hnow : now < deadline := ht now (List.mem_cons_self ..)
    rw [Prog.handle_ret, if_neg (Int.not_le.mpr (Int.sub_pos_of_lt hnow))] at h1
    obtain ⟨r, t, rfl, h2⟩ := runs_call h1
    cases r with
    | error e => exact absurd hs id
    | ok chunk =>
      obtain ⟨rest, hchunk, hs⟩ := hs
      have h3 : Runs (if chunk = [] then Prog.ofExcept (checkRequest value)
          else if maxRequestBytes < (value ++ chunk).length then
            Prog.ofExcept (checkRequest (value ++ chunk))
          else receiveLoop deadline fuel (value ++ chunk)) t x := h2
      have hwhole : value ++ chunk ++ rest = stream := by
        rw [List.append_assoc, ← hchunk.front, hstream]
      by_cases hend : chunk = []
      · -- the size asked for is never zero, so this is the end of the stream
        have hleft : left = [] := (hchunk.progress hend).resolve_right (by omega)
        rw [if_pos hend] at h3
        rw [hleft, List.append_nil] at hstream
        rw [(runs_ofExcept h3).2, hstream]
      · rw [if_neg hend] at h3
        by_cases hlong : maxRequestBytes < (value ++ chunk).length
        · rw [if_pos hlong] at h3
          rw [(runs_ofExcept h3).2, ← hwhole]
          exact checkRequest_long hlong
        · rw [if_neg hlong] at h3
          have hpos : 0 < chunk.length := List.length_pos_iff.mpr hend
          refine ih h3 hwhole (by omega) ?_ hs fun now' hmem => ht now' ?_
          · rw [List.length_append]
            omega
          · exact List.mem_cons_of_mem _ hmem

/-- However the stream is cut, what is made of it is the check of the whole. -/
theorem receive_served {stream : Bytes} {t : List (Event socketSig)} {x : Outcome Exn Bytes}
    (h : Runs receiveRequest t x) (hs : Serves stream t) (ht : Timely t) :
    x = checkRequest stream := by
  obtain ⟨start, t, rfl, h1⟩ := runs_call h
  have h2 : Runs (receiveLoop (start + requestReadDeadline) (maxRequestBytes + 1) []) t x := h1
  exact receiveLoop_served h2 (List.nil_append stream) (Nat.zero_le _) (Nat.le_refl _) hs
    (ht start _ rfl)

/-! ## The client -/

variable {t t₁ t₂ : List (Event hostSig)} {stream : Bytes}

/-- The replies of a run are those of its beginning and of what follows. -/
theorem Replies.front (h : Replies stream (t₁ ++ t₂)) : Replies stream t₁ := by
  induction t₁ generalizing stream with
  | nil => trivial
  | cons e t₁ ih =>
    obtain ⟨o, r⟩ := e
    cases o with
    | recv size =>
      cases r with
      | error e => exact @ih stream h
      | ok chunk =>
        obtain ⟨rest, hchunk, h⟩ := h
        exact ⟨rest, hchunk, ih h⟩
    | _ => exact @ih stream h

def IsRecv : HostOp → Prop
  | .recv _ => True
  | _ => False

/-- What is not read does not take from the stream. -/
theorem Replies.skip (h : Replies stream (t₁ ++ t₂)) (hnone : ∀ e ∈ t₁, ¬ IsRecv e.1) :
    Replies stream t₂ := by
  induction t₁ with
  | nil => exact h
  | cons e t₁ ih =>
    have hrest : ∀ e ∈ t₁, ¬ IsRecv e.1 := fun e' he' => hnone e' (List.mem_cons_of_mem _ he')
    have hfirst := hnone e (List.mem_cons_self ..)
    obtain ⟨o, r⟩ := e
    cases o with
    | recv size => exact absurd trivial hfirst
    | _ => exact ih h hrest

/-- What the loop makes of a whole stream. -/
def replyOf (stream : Bytes) : Option Bytes := if consumed.length < stream.length then none else
    some stream

/-- The reading loop ends with its verdict on the whole stream, unless a read fails. -/
theorem recvLoop_replied {fuel : Nat} {response left : Bytes} {x : Outcome Exn (Option Bytes)}
    (h : Runs (recvLoop fuel response) t x) (hstream : response ++ left = stream)
    (hresponse : response.length ≤ consumed.length)
    (hfuel : consumed.length + 1 ≤ fuel + response.length)
    (hs : Replies left t) : x = .ok (replyOf stream)
    ∨ ((∃ e, x = .error e) ∧ ∃ e ∈ t, ¬ SocketOk e) := by
  induction fuel generalizing response left t with
  | zero => omega
  | succ fuel ih =>
    unfold recvLoop at h
    rw [if_neg (by omega)] at h
    obtain ⟨r, t, rfl, h1⟩ := runs_call h
    cases r with
    | error e =>
      right
      exact ⟨⟨_, (runs_raise h1).2⟩, _, List.mem_cons_self .., id⟩
    | ok chunk =>
      obtain ⟨rest, hchunk, hs⟩ := hs
      have h2 : Runs (if chunk = [] then (Prog.ret (some response) : HostProg (Option Bytes))
          else if consumed.length < (response ++ chunk).length then Prog.ret none
          else recvLoop fuel (response ++ chunk)) t x := h1
      have hwhole : response ++ chunk ++ rest = stream := by
        rw [List.append_assoc, ← hchunk.front, hstream]
      by_cases hend : chunk = []
      · left
        have hleft : left = [] := (hchunk.progress hend).resolve_right (by omega)
        rw [if_pos hend] at h2
        rw [hleft, List.append_nil] at hstream
        rw [(runs_ret h2).2, ← hstream]
        unfold replyOf
        rw [if_neg (by omega)]
      · rw [if_neg hend] at h2
        by_cases hlong : consumed.length < (response ++ chunk).length
        · left
          rw [if_pos hlong] at h2
          have hlonger : consumed.length < stream.length := by
            rw [← hwhole, List.length_append]
            omega
          rw [(runs_ret h2).2]
          unfold replyOf
          rw [if_pos hlonger]
        · rw [if_neg hlong] at h2
          have hpos : 0 < chunk.length := List.length_pos_iff.mpr hend
          have hlength : (response ++ chunk).length = response.length + chunk.length :=
            List.length_append
          rcases ih h2 hwhole (by omega) (by omega) hs with hok | ⟨herror, e, he, hbad⟩
          · exact .inl hok
          · exact .inr ⟨herror, e, List.mem_cons_of_mem _ he, hbad⟩

theorem replyOf_eq_consumed : (replyOf stream == some consumed) = true ↔ stream = consumed := by
  unfold replyOf
  constructor
  · intro h
    split at h
    · exact absurd (beq_iff_eq.mp h) (by simp)
    · exact Option.some.inj (beq_iff_eq.mp h)
  · rintro rfl
    rw [if_neg (Nat.lt_irrefl _), beq_self_eq_true]

/-- The verdict on the whole stream, or a failed call and no success. -/
def Decides (stream : Bytes) (t : List (Event hostSig)) (x : Outcome Exn Bool) : Prop :=
  x = .ok (replyOf stream == some consumed) ∨ (x ≠ .ok true ∧ ∃ e ∈ t, ¬ SocketOk e)

theorem Decides.append_left {x : Outcome Exn Bool} (h : Decides stream t₂ x)
    (t₁ : List (Event hostSig)) :
    Decides stream (t₁ ++ t₂) x := by
  rcases h with h | ⟨h, e, he, hbad⟩
  · exact .inl h
  · exact .inr ⟨h, e, List.mem_append_right _ he, hbad⟩

/-- A call that fails ends the conversation. -/
theorem decides_failed {o : HostOp} {r : hostSig.Resp o} {x : Outcome Exn Bool} {e : Exn}
    (hbad : ¬ SocketOk ⟨o, r⟩) (h : x = .error e) : Decides stream (⟨o, r⟩ :: t) x := by
  refine .inr ⟨?_, _, List.mem_cons_self .., hbad⟩
  rw [h]
  simp

/-- What the client makes of an answer is decided by the bytes of the stream, however they come in
chunks. -/
theorem talk_decides {request : Bytes} {x : Outcome Exn Bool} (h : Runs (talk request) t x)
    (hs : Replies stream t) :
    Decides stream t x := by
  obtain ⟨r, t, rfl, hconnect⟩ := runs_call h
  cases r with
  | error e => exact decides_failed id (runs_raise hconnect).2
  | ok u =>
    refine Decides.append_left ?_ [_]
    obtain ⟨r, t, rfl, hsend⟩ := runs_call hconnect
    cases r with
    | error e => exact decides_failed id (runs_raise hsend).2
    | ok u =>
      refine Decides.append_left ?_ [_]
      obtain ⟨r, t, rfl, hshut⟩ := runs_call hsend
      cases r with
      | error e => exact decides_failed id (runs_raise hshut).2
      | ok u =>
        refine Decides.append_left ?_ [_]
        have hreplies : Replies stream t := hs
        have h1 : Runs ((recvLoop (consumed.length + 2) []).handle
            (fun response => (Prog.ret (response == some consumed) : HostProg Bool)) .raise) t x :=
              hshut
        obtain ⟨t₁, t₂, y, rfl, hrecv, h2⟩ := runs_handle h1
        rcases recvLoop_replied hrecv (List.nil_append stream) (Nat.zero_le _)
          (by simp) hreplies.front
          with rfl | ⟨⟨e, rfl⟩, e', he', hbad⟩
        · exact .inl (runs_ret h2).2
        · refine .inr ⟨?_, e', List.mem_append_left _ he', hbad⟩
          rw [(runs_raise h2).2]
          simp

/-- Connecting and closing around the talk do not change what is decided. -/
theorem exchange_decides {request : Bytes} {x : Outcome Exn Bool} (h : Runs (exchange request) t x)
    (hs : Replies stream t) : Decides stream t x := by
  obtain ⟨t₁, t₂, y, rfl, hfinally, hcatch⟩ := runs_handle h
  -- the `except` clause turns an `OSError` into `False` and lets everything else through
  have hcaught : y = x ∨ ((∃ e, y = .error e) ∧ x ≠ .ok true) := by
    cases y with
    | ok b => exact .inl (runs_ret hcatch).2.symm
    | error e =>
      right
      refine ⟨⟨e, rfl⟩, ?_⟩
      cases e with
      | os e =>
        rw [(runs_ret hcatch).2]
        simp
      | _ =>
        rw [(runs_raise hcatch).2]
        simp
  obtain ⟨t₃, t₄, z, rfl, htalk, hclose⟩ := runs_handle hfinally
  have hs' : Replies stream t₃ := by
    rw [List.append_assoc] at hs
    exact hs.front
  have hz := talk_decides htalk hs'
  have hend : (y = z ∧ ∃ b, z = .ok b) ∨ (∃ e, y = .error e)
    ∧ ((∃ e, z = .error e) ∨ ∃ e ∈ t₄, ¬ SocketOk e) := by
    cases z with
    | ok b =>
      obtain ⟨r, t₄, rfl, hclosed⟩ := runs_call hclose
      cases r with
      | ok u => exact .inl ⟨(runs_ret hclosed).2, b, rfl⟩
      | error e => exact .inr ⟨⟨_, (runs_raise hclosed).2⟩, .inr ⟨_, List.mem_cons_self .., id⟩⟩
    | error e =>
      obtain ⟨r, t₄, rfl, hclosed⟩ := runs_call hclose
      cases r with
      | ok u => exact .inr ⟨⟨_, (runs_raise hclosed).2⟩, .inl ⟨e, rfl⟩⟩
      | error e' => exact .inr ⟨⟨_, (runs_raise hclosed).2⟩, .inl ⟨e, rfl⟩⟩
  rcases hend with ⟨rfl, b, rfl⟩ | ⟨⟨e, rfl⟩, hwhy⟩
  · rcases hcaught with rfl | ⟨⟨e, he⟩, -⟩
    · rcases hz with hz | ⟨hz, e, he, hbad⟩
      · exact .inl hz
      · exact .inr ⟨hz, e, by simp [he], hbad⟩
    · cases he
  · have hx : x ≠ .ok true := by
      rcases hcaught with rfl | ⟨-, hx⟩
      · simp
      · exact hx
    rcases hwhy with ⟨e', rfl⟩ | ⟨e', he', hbad⟩
    · rcases hz with hz | ⟨-, e'', he'', hbad⟩
      · cases hz
      · exact .inr ⟨hx, e'', by simp [he''], hbad⟩
    · exact .inr ⟨hx, e', by simp [he'], hbad⟩

/-- Before the conversation the socket is not touched. -/
def BeforeConnect : HostOp → Prop
  | .connectBroker => False
  | .recv _ => False
  | _ => True

theorem beforeConnect_falseOnOsError {p : HostProg Bool} (h : p.Calls BeforeConnect) :
    (falseOnOsError p).Calls BeforeConnect :=
  h.handle (fun _ => trivial) fun e => by cases e <;> trivial

theorem beforeConnect_checkParents (depth count : Nat) :
    (checkParents depth count).Calls BeforeConnect := by
  induction count generalizing depth with
  | zero => trivial
  | succ count ih =>
    refine (calls_sys (.perform trivial)).bind fun metadata => ?_
    exact .ite (ih (depth + 1)) trivial

theorem beforeConnect_reachable : brokerReachable.Calls BeforeConnect := by
  refine (Prog.Calls.perform trivial).bind fun host => ?_
  cases host with
  | none => trivial
  | some platform =>
    refine (beforeConnect_falseOnOsError (beforeConnect_checkParents 0 _)).bind fun parents => ?_
    refine .ite (beforeConnect_falseOnOsError ?_) trivial
    refine (calls_sys (.perform trivial)).bind fun metadata => ?_
    refine (Prog.Calls.perform trivial).bind fun group => ?_
    cases group <;> trivial

/-- Whether a connection was asked for. -/
def isConnect : Event hostSig → Bool
  | ⟨.connectBroker, _⟩ => true
  | _ => false

/-- A client that gets as far as a connection decides by the stream; one that does not never says
that a nonce was consumed. -/
theorem consume_decides {nonce receiptSha256 operationPayloadSha256 : PyStr} {x : Outcome Exn Bool}
    (h : Runs (consumeNonceViaControlPlane nonce receiptSha256 operationPayloadSha256) t x)
    (hs : Replies stream t) :
    Decides stream t x ∨ (x ≠ .ok true ∧ ∀ e ∈ t, isConnect e = false) := by
  obtain ⟨t₁, t₂, y, rfl, hreach, h⟩ := runs_handle h
  have hbefore : ∀ e ∈ t₁, BeforeConnect e.1 := beforeConnect_reachable.runs hreach
  have hquiet : ∀ e ∈ t₁, isConnect e = false := by
    intro e he
    have he := hbefore e he
    obtain ⟨o, r⟩ := e
    cases o with
    | connectBroker => exact absurd he id
    | _ => rfl
  have hnone : ∀ e ∈ t₁, ¬ IsRecv e.1 := by
    intro e he
    have he := hbefore e he
    obtain ⟨o, r⟩ := e
    cases o with
    | recv size => exact absurd he id
    | _ => exact id
  have hrefused : t₂ = [] → x ≠ .ok true → x ≠ .ok true ∧ ∀ e ∈ t₁ ++ t₂, isConnect e = false := by
    rintro rfl hx
    rw [List.append_nil]
    exact ⟨hx, hquiet⟩
  cases y with
  | error e =>
    obtain ⟨ht, hx⟩ := runs_raise h
    exact .inr (hrefused ht (by rw [hx]; simp))
  | ok reachable =>
    cases reachable with
    | false =>
      obtain ⟨ht, hx⟩ := runs_ret h
      exact .inr (hrefused ht (by rw [hx]; simp))
    | true =>
      obtain ⟨t₃, t₄, z, rfl, hencode, h⟩ := runs_handle h
      obtain ⟨rfl, -⟩ := runs_ofExcept hencode
      cases z with
      | error e =>
        obtain ⟨ht, hx⟩ := runs_raise h
        exact .inr (hrefused ht (by rw [hx]; simp))
      | ok request =>
        left
        rw [List.nil_append] at hs ⊢
        exact (exchange_decides h (hs.skip hnone)).append_left t₁

/-! ## Both sides -/

/-- What is accepted is decided by the stream, not by how it is cut: by the Broker within its
deadline, and by the client, which answers `True` for no other stream, and for this one wherever it
gets to connect and no call fails. -/
theorem framing_independent :
    (∀ stream t x, Runs receiveRequest t x → Serves stream t → Timely t →
      ((∃ value, x = .ok value) ↔ IsRecord stream) ∧ ∀ value, x = .ok value → value = stream)
    ∧ ∀ nonce receiptSha256 operationPayloadSha256 stream t x,
      Runs (consumeNonceViaControlPlane nonce receiptSha256 operationPayloadSha256) t x →
      Replies stream t →
      (x = .ok true → stream = consumed)
        ∧ ((∃ e ∈ t, isConnect e = true) → (∀ e ∈ t, SocketOk e) →
          (x = .ok true ↔ stream = consumed)) := by
  constructor
  · intro stream t x hrun hs ht
    have hx := receive_served hrun hs ht
    refine ⟨⟨?_, ?_⟩, ?_⟩
    · rintro ⟨value, hvalue⟩
      exact (checkRequest_ok_iff.mp (hx ▸ hvalue)).2
    · intro hrecord
      exact ⟨stream, hx.trans (checkRequest_ok_iff.mpr ⟨rfl, hrecord⟩)⟩
    · intro value hvalue
      exact (checkRequest_ok_iff.mp (hx ▸ hvalue)).1
  · intro nonce receiptSha256 operationPayloadSha256 stream t x hrun hs
    have hdecides := consume_decides hrun hs
    have htrue : x = .ok true → stream = consumed := by
      rintro rfl
      rcases hdecides with (hverdict | ⟨hx, -⟩) | ⟨hx, -⟩
      · exact replyOf_eq_consumed.mp (Except.ok.inj hverdict).symm
      · exact absurd rfl hx
      · exact absurd rfl hx
    refine ⟨htrue, ?_⟩
    rintro ⟨e, he, hconnect⟩ hok
    refine ⟨htrue, fun hstream => ?_⟩
    rcases hdecides with (hverdict | ⟨-, e', he', hbad⟩) | ⟨-, hnone⟩
    · rw [hverdict, replyOf_eq_consumed.mpr hstream]
    · exact absurd (hok e' he') hbad
    · exact absurd hconnect (by rw [hnone e he]; decide)

/-- A request line, which comes in two chunks. -/
def requestLine : Bytes := (lit "request\n").map fun c => byte c.val

/-- The Broker reads three bytes, the other five, and the end of the stream. -/
def requestTrace : List (Event socketSig) :=
  [⟨.monotonic, (0 : Int)⟩, ⟨.monotonic, (1 : Int)⟩, ⟨.recv 512, .ok (requestLine.take 3)⟩,
    ⟨.monotonic, (2 : Int)⟩,
    ⟨.recv 512, .ok (requestLine.drop 3)⟩, ⟨.monotonic, (3 : Int)⟩, ⟨.recv 512, .ok []⟩]

theorem runs_requestTrace : Runs receiveRequest requestTrace (.ok requestLine) :=
  .call _ (.call _ (.call _ (.call _ (.call _ (.call _ (.call _ (.ret _)))))))

/-- A host whose Broker replies `CONSUMED`. -/
def consumingHost : CalmHost := ⟨⟨0, by decide⟩, fun _ => .ok none, fun _ => [], consumed⟩

/-- A reading of the reply. -/
def isRecv : Event hostSig → Bool
  | ⟨.recv _, _⟩ => true
  | _ => false

/-- The reply comes in two chunks, too. -/
def chunkedReply (past : List (Event hostSig)) : (o : hostSig.Op) → hostSig.Resp o
  | .recv _ =>
    match past.countP isRecv with
    | 0 => .ok (consumed.take 4)
    | 1 => .ok (consumed.drop 4)
    | _ => .ok []
  | o => consumingHost.answer o

/-- `_consume_nonce_via_control_plane("nonce", "receipt", "payload")` -/
def consumeOnce : HostProg Bool := consumeNonceViaControlPlane (lit "nonce") (lit "receipt")
    (lit "payload")

def consumeTrace : List (Event hostSig) := (consumeOnce.replied chunkedReply []).1

theorem runs_consumeTrace : Runs consumeOnce consumeTrace (consumeOnce.replied chunkedReply []).2 :=
  runs_replied chunkedReply [] consumeOnce

/-- The sample's calls answer as a socket may. -/
theorem consumeTrace_ok : ∀ e ∈ consumeTrace, SocketOk e := by
  intro e he
  obtain ⟨past, hanswer⟩ := mem_replied he
  obtain ⟨o, r⟩ := e
  dsimp only at hanswer
  rw [hanswer]
  cases o with
  | recv size =>
    unfold chunkedReply
    dsimp only
    split <;> exact trivial
  | _ => exact trivial

set_option maxRecDepth 8000 in
/-- Both sides read their stream in two chunks: the Broker accepts the line, the client answers
`True`. -/
theorem framing_independent_sample :
    ((∃ value, (.ok requestLine : Outcome Exn Bytes) = .ok value) ↔ IsRecord requestLine)
      ∧ ((consumeOnce.replied chunkedReply []).2 = .ok true ↔ consumed = consumed) := by
  constructor
  · have htimely : Timely requestTrace := by
      intro start rest h now hnow
      have hclock : [(0 : Int), 1, 2, 3] = start :: rest := h
      obtain ⟨rfl, rfl⟩ := List.cons.inj hclock
      simp only [List.mem_cons, List.not_mem_nil, or_false] at hnow
      rcases hnow with rfl | rfl | rfl
      · decide
      · decide
      · decide
    have hserves : Serves requestLine requestTrace :=
      ⟨requestLine.drop 3, ⟨rfl, by decide, by decide⟩, [], ⟨rfl, by decide, by decide⟩, [],
        ⟨rfl, by decide, by simp⟩,
        trivial⟩
    exact (framing_independent.1 requestLine requestTrace _ runs_requestTrace hserves htimely).1
  · have hreplies : Replies consumed consumeTrace :=
      ⟨consumed.drop 4, ⟨rfl, by decide, by decide⟩, [], ⟨rfl, by decide, by decide⟩, [],
        ⟨rfl, by decide, by simp⟩,
        trivial⟩
    have hconnect : ∃ e ∈ consumeTrace, isConnect e = true :=
      List.any_eq_true.mp (by rfl : consumeTrace.any isConnect = true)
    exact (framing_independent.2 _ _ _ consumed consumeTrace _ runs_consumeTrace hreplies).2
      hconnect consumeTrace_ok

end SddGov.Autonomy
