import RemoteBackup.Proofs.CycleEffects
import RemoteBackup.Proofs.Frames
import RemoteBackup.Proofs.WriteChain

/-!
# `RemoteBackup.Proofs.Wire`: the bytes of a connection

What a connection has taken from the socket and what it has put on it, beside the calls of the
request handler in its log.

* `Trace.written_replies`: the messages that were written and those still to be written are the
  replies, in their order.
* `Still`: nothing of a handler shows on the wire. One lemma for each handler of the socket.
* `Wire`: the invariant. What is under way depends on the pending operation (`Underway`).
* `wire_step`, `wire_run`: every event, then every run. The requests that were served are the
  frames at the front of what the client sends, and what it has received is the front of the
  framed replies.
-/

set_option autoImplicit false

namespace RemoteBackup.Proofs

open Lib

/-! ### Frames -/

/-- The frames of the requests. -/
def requestBytes (xs : List (Message × List Message)) : Bytes := xs.flatMap fun x => frame x.1

/-- The frames of the replies. -/
def replyBytes (xs : List (Message × List Message)) : Bytes := xs.flatMap fun x => x.2.flatMap frame

/-- One more exchange is one more frame from the client. -/
theorem requestBytes_append (xs : List (Message × List Message)) (m : Message)
    (q : List Message) : requestBytes (xs ++ [(m, q)]) = requestBytes xs ++ frame m := by
  simp [requestBytes]

/-- One more exchange is the frames of its reply to the client. -/
theorem replyBytes_append (xs : List (Message × List Message)) (m : Message) (q : List Message) :
    replyBytes (xs ++ [(m, q)]) = replyBytes xs ++ q.flatMap frame := by
  simp [replyBytes]

/-- The replies' bytes are the frames of all their messages. -/
theorem replyBytes_eq (xs : List (Message × List Message)) :
    replyBytes xs = (xs.flatMap Prod.snd).flatMap frame := by
  rw [replyBytes, List.flatMap_assoc]

/-- Eight bytes are those of the number that they make. -/
theorem headerBytes_headerOf {bytes : Bytes} (h : bytes.length = headerSize) :
    headerBytes (headerOf bytes) = bytes := by
  have hstep : ∀ (k : Nat) (bytes : Bytes), bytes.length = k →
      (List.range k).map (fun i => UInt8.ofNat (headerOf bytes >>> (8 * i))) = bytes := by
    intro k
    induction k with
    | zero =>
        intro bytes hlen
        rw [List.length_eq_zero_iff.mp hlen]
        rfl
    | succ k ih =>
        intro bytes hlen
        obtain ⟨b, bytes, rfl⟩ := List.exists_cons_of_length_eq_add_one hlen
        have hvalue : headerOf (b :: bytes) = b.toNat + 256 * headerOf bytes := rfl
        have hrest : (b.toNat + 256 * headerOf bytes) >>> 8 = headerOf bytes := by
          have hb := b.toNat_lt
          rw [Nat.shiftRight_eq_div_pow]
          omega
        have hshift : ∀ i, (b.toNat + 256 * headerOf bytes) >>> (8 * (i + 1)) =
            headerOf bytes >>> (8 * i) := by
          intro i
          rw [← hrest, ← Nat.shiftRight_add, hrest]
          congr 1
          omega
        rw [List.range_succ_eq_map, List.map_cons, List.map_map, hvalue]
        congr 1
        · apply UInt8.toNat_inj.mp
          have hb := b.toNat_lt
          simp
        · rw [← ih bytes (by simpa using hlen)]
          refine List.map_congr_left fun i _ => ?_
          rw [Function.comp_apply, Nat.succ_eq_add_one, ih bytes (by simpa using hlen), hshift]
  exact hstep headerSize bytes h

/-- The messages that were written, and those still to be written, are the replies. Induction on
the log. -/
theorem Trace.written_replies {log : List Action} {st : Stage} (h : Trace log st) :
    writtenIn log ++ st.unwritten = (exchangesIn log).flatMap Prod.snd := by
  induction h with
  | nil => rfl
  | header _ ih | payload _ ih =>
      simpa [writtenIn_cons, wroteOf, exchangesIn_cons, exchangeOf, Stage.unwritten] using ih
  | served m q _ _ ih =>
      simpa [writtenIn_cons, wroteOf, exchangesIn_cons, exchangeOf, Stage.unwritten] using ih
  | wrote _ ih =>
      simpa [writtenIn_cons, wroteOf, exchangesIn_cons, exchangeOf, Stage.unwritten] using ih
  | @other l a st _ ha ih =>
      have hwrote : wroteOf a = none := by
        cases a <;> first | rfl | simp [isMark] at ha
      have hexchange : exchangeOf a = none := by
        cases a <;> first | rfl | simp [isMark] at ha
      simpa [writtenIn_cons, hwrote, exchangesIn_cons, hexchange] using ih

/-! ### Handlers that move no byte -/

/-- Nothing shows on the wire. -/
structure Still (s s' : Cycle) : Prop where
  sent : s'.sent = s.sent
  stream : s'.conn.stream = s.conn.stream
  exchanges : exchangesIn s'.log = exchangesIn s.log
  written : writtenIn s'.log = writtenIn s.log

variable {env : Env} {s s' s'' : Cycle}

/-- Nothing went over the wire. -/
theorem Still.refl (s : Cycle) : Still s s := ⟨rfl, rfl, rfl, rfl⟩

/-- Two steps that put nothing on the wire put nothing there together. -/
theorem Still.trans (h : Still s s') (h' : Still s' s'') : Still s s'' :=
  ⟨h'.sent.trans h.sent, h'.stream.trans h.stream, h'.exchanges.trans h.exchanges,
    h'.written.trans h.written⟩

/-- An action that is neither a call of the request handler nor the write of a message. -/
theorem Still.of_cons {a : Action} (hsent : s'.sent = s.sent)
    (hstream : s'.conn.stream = s.conn.stream) (hlog : s'.log = a :: s.log)
    (ha : isMark a = false ∨ ∃ op, a = .completed op) : Still s s' := by
  have hnone : exchangeOf a = none ∧ wroteOf a = none := by
    rcases ha with ha | ⟨op, rfl⟩
    · cases a <;> first | exact ⟨rfl, rfl⟩ | simp [isMark] at ha
    · exact ⟨rfl, rfl⟩
  refine ⟨hsent, hstream, ?_, ?_⟩
  · rw [hlog, exchangesIn_cons, hnone.1]
    simp
  · rw [hlog, writtenIn_cons, hnone.2]
    simp

/-- `shutdown` puts nothing on the wire and leaves the pending operations. -/
theorem still_shutdown (s : Cycle) : Still s s.shutdown ∧ s.shutdown.pending = s.pending := by
  obtain ⟨armed, queued, heq⟩ := cancel_eq s
  rw [Cycle.shutdown, heq]
  exact ⟨.of_cons rfl rfl rfl (Or.inl rfl), rfl⟩

/-- A result is logged before what comes next, unless the process stops. -/
theorem logResult_still (hpending : s.pending = []) (t : UInt8) (mr cr : ResultType)
    {k : Cycle → Cycle} {P : Cycle → Prop} (hnone : ∀ s', s'.pending = [] → P s')
    (hk : ∀ lines, Still { s with lines := lines } (k { s with lines := lines }) ∧
      P (k { s with lines := lines })) :
    Still s ((s.logResult t mr cr).andThen k) ∧ P ((s.logResult t mr cr).andThen k) := by
  rcases logResult_eq s t mr cr with ⟨lines, heq⟩ | heq
  · rw [heq, Cycle.andThen]
    split
    · exact ⟨⟨rfl, rfl, rfl, rfl⟩, hnone _ hpending⟩
    · have hlines : Still s { s with lines := lines } := ⟨rfl, rfl, rfl, rfl⟩
      exact ⟨hlines.trans (hk lines).1, (hk lines).2⟩
  · rw [heq]
    exact ⟨⟨rfl, rfl, rfl, rfl⟩, hnone _ hpending⟩

/-- A read that failed puts nothing on the wire and begins nothing. -/
theorem logRead_still (hpending : s.pending = []) :
    Still s (s.logRead.andThen Cycle.shutdown) ∧
      (s.logRead.andThen Cycle.shutdown).pending = [] :=
  logResult_still (P := fun s' => s'.pending = []) hpending _ _ _ (fun _ h => h) fun lines => by
    obtain ⟨hstill, hnone⟩ := still_shutdown { s with lines := lines }
    exact ⟨hstill, hnone.trans hpending⟩

/-- A write that failed puts nothing on the wire and begins nothing. -/
theorem logWrite_still (hpending : s.pending = []) :
    Still s ((s.logWrite true).andThen Cycle.shutdown) ∧
      ((s.logWrite true).andThen Cycle.shutdown).pending = [] :=
  logResult_still (P := fun s' => s'.pending = []) hpending _ _ _ (fun _ h => h) fun lines => by
    obtain ⟨hstill, hnone⟩ := still_shutdown { s with lines := lines }
    exact ⟨hstill, hnone.trans hpending⟩

/-- A handler of the socket ends the chain of handlers, or it is told of no error and begins
`op` in a state that meets `P`. -/
def Begins (error : Bool) (op : Operation) (P : Cycle → Prop) (s' : Cycle) : Prop :=
  s'.pending = [] ∨ error = false ∧ s'.pending = [op] ∧ P s'

/-- The handler of the handshake begins the read of a header. -/
theorem readRequest_still (hpending : s.pending = []) (error : Bool) :
    Still s (s.readRequest error) ∧
      Begins error .readHeader (fun _ => True) (s.readRequest error) := by
  unfold Cycle.readRequest
  split
  · exact ⟨.refl s, Or.inl hpending⟩
  split
  · exact ⟨(logRead_still hpending).1, Or.inl (logRead_still hpending).2⟩
  · rename_i herror
    obtain ⟨armed, queued, heq⟩ := scheduleTimeout_eq s
    rw [heq]
    refine ⟨.of_cons rfl rfl rfl (Or.inl rfl), Or.inr ⟨by simpa using herror, ?_, trivial⟩⟩
    simp [Cycle.begin, hpending]

/-- The handler of a header begins the read of its payload. -/
theorem headerRead_still (hpending : s.pending = []) (error : Bool) :
    Still s (s.headerRead error) ∧
      Begins error .readPayload (fun s' => s'.header_ = s.header_) (s.headerRead error) := by
  unfold Cycle.headerRead
  split
  · exact ⟨.refl s, Or.inl hpending⟩
  split
  · exact ⟨(logRead_still hpending).1, Or.inl (logRead_still hpending).2⟩
  · rename_i herror
    obtain ⟨armed, queued, heq⟩ := scheduleTimeout_eq s
    rw [heq]
    refine ⟨.of_cons rfl rfl rfl (Or.inl rfl), Or.inr ⟨by simpa using herror, ?_, rfl⟩⟩
    simp [Cycle.begin, hpending]

/-- The handler of a last write begins the read of the next header. -/
theorem handleCompletion_still (hpending : s.pending = []) (error : Bool) :
    Still s (s.handleCompletion error) ∧
      Begins error .readHeader (fun _ => True) (s.handleCompletion error) := by
  have hnote : Still s (s.note .handledCompletion) := .of_cons rfl rfl rfl (Or.inl rfl)
  unfold Cycle.handleCompletion
  dsimp only
  split
  · exact ⟨hnote, Or.inl hpending⟩
  obtain ⟨hstill, hbegins⟩ := logResult_still (s := s.note .handledCompletion)
    (k := fun s => if error then s.shutdown else s.readRequest false)
    (P := Begins error .readHeader fun _ => True) hpending
    (s.note .handledCompletion).replies_.msgType
    (if (s.note .handledCompletion).replies_.verifyError then .err else .ok)
    (if error then .err else .ok) (fun _ h => Or.inl h) fun lines => by
      have hnone : { s.note .handledCompletion with lines := lines }.pending = [] := hpending
      cases error with
      | true =>
          obtain ⟨hstill, hkept⟩ := still_shutdown { s.note .handledCompletion with lines := lines }
          exact ⟨hstill, Or.inl (hkept.trans hpending)⟩
      | false => exact readRequest_still hnone false
  exact ⟨hnote.trans hstill, hbegins⟩

/-- `write_response` begins the write of the header of the first message. -/
theorem writeResponse_still (hpending : s.pending = []) (error : Bool) :
    Still s (s.writeResponse error) ∧
      Begins error .writeHeader (fun s' => s'.replies_ = s.replies_ ∧
        ∃ m rest, s.replies_.msgs = m :: rest ∧ s'.header_ = m.size) (s.writeResponse error) := by
  unfold Cycle.writeResponse
  split
  · exact ⟨.refl s, Or.inl hpending⟩
  split
  · exact ⟨(logWrite_still hpending).1, Or.inl (logWrite_still hpending).2⟩
  · rename_i herror
    split
    · exact ⟨⟨rfl, rfl, rfl, rfl⟩, Or.inl hpending⟩
    · rename_i m rest hmsgs
      refine ⟨.of_cons rfl rfl rfl (Or.inl rfl), Or.inr ⟨by simpa using herror, ?_, rfl, m, rest,
        hmsgs, rfl⟩⟩
      simp [Cycle.begin, hpending]

/-- The handler behind a header that was written begins the write of its message. -/
theorem headerWritten_still (hpending : s.pending = []) (error : Bool) :
    Still s (s.headerWritten error) ∧
      ((s.headerWritten error).pending = [] ∨ error = false ∧ ∃ m rest last,
        s.replies_.msgs = m :: rest ∧ (s.headerWritten error).pending = [.writeMessage last] ∧
          (s.headerWritten error).msg_ = m) := by
  unfold Cycle.headerWritten
  split
  · exact ⟨.refl s, Or.inl hpending⟩
  split
  · exact ⟨(logWrite_still hpending).1, Or.inl (logWrite_still hpending).2⟩
  · rename_i herror
    split
    · exact ⟨⟨rfl, rfl, rfl, rfl⟩, Or.inl hpending⟩
    · rename_i m rest hmsgs
      refine ⟨.of_cons rfl rfl rfl (Or.inl rfl), Or.inr ⟨by simpa using herror, m, rest,
        rest.isEmpty, hmsgs, ?_, rfl⟩⟩
      simp [Cycle.begin, hpending]

/-- An operation that has failed is the last one. -/
theorem failed_still (hpending : s.pending = []) (op : Operation) :
    Still s (s.failed env op) ∧ (s.failed env op).pending = [] := by
  have hnote : Still s (s.note (.failed op)) := .of_cons rfl rfl rfl (Or.inl rfl)
  have hlast : ∀ {op' : Operation} {P : Cycle → Prop} {s' : Cycle}, Begins true op' P s' →
      s'.pending = [] := by
    rintro op' P s' (h | ⟨h, -⟩)
    · exact h
    · cases h
  have hnone : (s.note (.failed op)).pending = [] := hpending
  unfold Cycle.failed
  cases op with
  | handshake =>
      obtain ⟨hstill, hbegins⟩ := readRequest_still hnone true
      exact ⟨hnote.trans hstill, hlast hbegins⟩
  | readHeader =>
      obtain ⟨hstill, hbegins⟩ := headerRead_still hnone true
      exact ⟨hnote.trans hstill, hlast hbegins⟩
  | readPayload =>
      dsimp only
      unfold Cycle.handleRequest
      split
      · exact ⟨hnote, hpending⟩
      · obtain ⟨hstill, hlast⟩ := logRead_still hnone
        exact ⟨hnote.trans hstill, hlast⟩
  | writeHeader =>
      obtain ⟨hstill, hbegins⟩ := headerWritten_still hnone true
      refine ⟨hnote.trans hstill, ?_⟩
      rcases hbegins with h | ⟨h, -⟩
      · exact h
      · cases h
  | writeMessage last =>
      dsimp only
      split
      · obtain ⟨hstill, hbegins⟩ := handleCompletion_still hnone true
        exact ⟨hnote.trans hstill, hlast hbegins⟩
      · obtain ⟨hstill, hbegins⟩ := writeResponse_still hnone true
        exact ⟨hnote.trans hstill, hlast hbegins⟩

/-- The call of the request handler adds an exchange. -/
structure Exchanges (m : Message) (s s' : Cycle) : Prop where
  sent : s'.sent = s.sent
  stream : s'.conn.stream = s.conn.stream
  exchanges : ∃ q, exchangesIn s'.log = exchangesIn s.log ++ [(m, q)]
  written : writtenIn s'.log = writtenIn s.log
  begins : Begins false .writeHeader
    (fun s' => ∃ m rest, s'.replies_.msgs = m :: rest ∧ s'.header_ = m.size) s'

/-- Serving a request adds one exchange to the log. -/
theorem serve_exchanges (hpending : s.pending = []) (m : Message) :
    Exchanges m s (s.serve env m) := by
  unfold Cycle.serve
  dsimp only
  cases (handleRequest env s.world s.user_ m).result with
  | error e =>
      refine ⟨rfl, rfl, ⟨[], ?_⟩, ?_, Or.inl hpending⟩
      · simp [exchangesIn_cons, exchangeOf]
      · simp [writtenIn_cons, wroteOf]
  | ok r =>
      dsimp only
      generalize hafter : { s with
        msg_ := m
        replies_ := r.replies
        user_ := (handleRequest env s.world s.user_ m).user
        world := (handleRequest env s.world s.user_ m).world
        log := .served m s.replies_.msgs r.replies.msgs :: s.log } = after
      have hnone : after.pending = [] := by rw [← hafter]; exact hpending
      have hexchanges : exchangesIn after.log = exchangesIn s.log ++ [(m, r.replies.msgs)] := by
        rw [← hafter]
        simp [exchangesIn_cons, exchangeOf]
      have hwritten : writtenIn after.log = writtenIn s.log := by
        rw [← hafter]
        simp [writtenIn_cons, wroteOf]
      obtain ⟨hstill, hbegins⟩ := writeResponse_still hnone false
      refine ⟨?_, ?_, ⟨r.replies.msgs, hstill.exchanges.trans hexchanges⟩,
        hstill.written.trans hwritten, ?_⟩
      · rw [hstill.sent, ← hafter]
      · rw [hstill.stream, ← hafter]
      · rcases hbegins with h | ⟨-, hop, hreplies, first, rest, hmsgs, hheader⟩
        · exact Or.inl h
        · exact Or.inr ⟨rfl, hop, first, rest, hreplies ▸ hmsgs, hheader⟩

/-- A print that does not end by itself leads nowhere. -/
theorem print_exchanges (hpending : s.pending = []) (m : Message) :
    (Still s (s.print env m) ∧ (s.print env m).pending = []) ∨ Exchanges m s (s.print env m) := by
  unfold Cycle.print
  rcases m.printed with h | _ | text
  · exact Or.inl ⟨⟨rfl, rfl, rfl, rfl⟩, hpending⟩
  · exact Or.inl ⟨⟨rfl, rfl, rfl, rfl⟩, hpending⟩
  · exact Or.inr (serve_exchanges hpending m)

/-- A payload that was read leads nowhere, or its frame is served. -/
theorem handleRequest_exchanges (hpending : s.pending = []) (allocates : Nat → Bool) :
    (Still s (s.handleRequest env allocates false) ∧
      (s.handleRequest env allocates false).pending = []) ∨
    (s.header_ ≤ chunkSize ∧
      Exchanges ⟨s.conn.buffer.take s.header_⟩ s (s.handleRequest env allocates false)) := by
  unfold Cycle.handleRequest
  split
  · exact Or.inl ⟨.refl s, hpending⟩
  simp only [Bool.false_eq_true, if_false]
  obtain ⟨armed, queued, heq⟩ := cancel_eq s
  have hcancel : Still s s.cancel := by
    rw [heq]
    exact ⟨rfl, rfl, rfl, rfl⟩
  have hnone : s.cancel.pending = [] := by
    rw [heq]
    exact hpending
  rcases handleRequest_ends s.conn allocates s.header_ with
    ⟨-, h⟩ | ⟨-, -, hfits, h⟩ | ⟨-, -, h⟩ <;> rw [h]
  · obtain ⟨hstill, hkept⟩ := still_shutdown s.cancel
    exact Or.inl ⟨hcancel.trans hstill, hkept.trans hnone⟩
  · rcases @print_exchanges env s.cancel hnone ⟨s.conn.buffer.take s.header_⟩ with
      ⟨hstill, hkept⟩ | hserved
    · exact Or.inl ⟨hcancel.trans hstill, hkept⟩
    · refine Or.inr ⟨hfits, hserved.sent.trans hcancel.sent, hserved.stream.trans hcancel.stream,
        ?_, hserved.written.trans hcancel.written, hserved.begins⟩
      obtain ⟨q, hq⟩ := hserved.exchanges
      exact ⟨q, by rw [hq, hcancel.exchanges]⟩
  · exact Or.inl ⟨hcancel.trans ⟨rfl, rfl, rfl, rfl⟩, hnone⟩

/-! ### The invariant -/

/-- No frame is half read or half written. `stream` is all that the client sends. -/
structure Whole (stream : Bytes) (s : Cycle) : Prop where
  received : stream = requestBytes (exchangesIn s.log) ++ s.conn.stream
  sent : s.sent = (writtenIn s.log).flatMap frame

/-- What has moved of the next frame while `op` is pending. -/
def Underway (stream : Bytes) (s : Cycle) : Operation → Prop
  | .handshake | .readHeader => Whole stream s
  | .readPayload =>
      stream = requestBytes (exchangesIn s.log) ++ (headerBytes s.header_ ++ s.conn.stream) ∧
        s.sent = (writtenIn s.log).flatMap frame
  | .writeHeader => Whole stream s ∧ ∃ m rest, s.replies_.msgs = m :: rest ∧ s.header_ = m.size
  | .writeMessage _ =>
      stream = requestBytes (exchangesIn s.log) ++ s.conn.stream ∧
        s.sent = (writtenIn s.log).flatMap frame ++ headerBytes s.msg_.size

/-- The invariant of the wire. The requests that were served are at the front of the stream,
what was sent is at the front of the replies, and nothing is lost in between as long as an
operation is pending. -/
structure Wire (stream : Bytes) (s : Cycle) : Prop where
  received : requestBytes (exchangesIn s.log) <+: stream
  sent : s.sent <+: replyBytes (exchangesIn s.log)
  underway : ∀ op, s.pending = [op] → Underway stream s op

variable {stream : Bytes}

/-- What was read and written whole stays so when nothing goes over the wire. -/
theorem Whole.still (h : Whole stream s) (hstill : Still s s') : Whole stream s' where
  received := by
    rw [hstill.exchanges, hstill.stream]
    exact h.received
  sent := by
    rw [hstill.sent, hstill.written]
    exact h.sent

/-- The same was served and the same was sent. -/
theorem Wire.same (h : Wire stream s) (hexchanges : exchangesIn s'.log = exchangesIn s.log)
    (hsent : s'.sent = s.sent) (hunderway : ∀ op, s'.pending = [op] → Underway stream s' op) :
    Wire stream s' where
  received := by
    rw [hexchanges]
    exact h.received
  sent := by
    rw [hsent, hexchanges]
    exact h.sent
  underway := hunderway

/-- What was written is the front of the replies, also with the header of the next message. -/
theorem Trace.written_prefix {log : List Action} {st : Stage} (h : Trace log st) :
    (writtenIn log).flatMap frame <+: replyBytes (exchangesIn log) := by
  rw [replyBytes_eq, ← h.written_replies, List.flatMap_append]
  exact List.prefix_append _ _

/-- A header in front of the message that is next is the front of the reply that is under way. -/
theorem Trace.header_prefix {log : List Action} {m : Message} {rest : List Message}
    (h : Trace log (.answering (m :: rest))) :
    (writtenIn log).flatMap frame ++ headerBytes m.size <+: replyBytes (exchangesIn log) := by
  rw [replyBytes_eq, ← h.written_replies, List.flatMap_append, Stage.unwritten, List.flatMap_cons,
    frame, List.append_assoc, List.prefix_append_right_inj]
  exact List.prefix_append _ _

/-- A handler that starts with nothing half moved and begins a read of a header, or a write of
one. -/
theorem Whole.wire (h : Whole stream s) {st : Stage} (htrace : Trace s.log st)
    (hstill : Still s s')
    (hop : ∀ op, s'.pending = [op] → Whole stream s' → Underway stream s' op) :
    Wire stream s' where
  received := by
    rw [hstill.exchanges, h.received]
    exact List.prefix_append _ _
  sent := by
    rw [hstill.sent, hstill.exchanges, h.sent]
    exact htrace.written_prefix
  underway := fun op hpending => hop op hpending (h.still hstill)

/-- Of the operation that was begun there is only one. -/
theorem Begins.only {op op' : Operation} {P : Cycle → Prop} {error : Bool}
    (h : Begins error op P s') (hpending : s'.pending = [op']) : op' = op ∧ P s' := by
  rcases h with hnone | ⟨-, hop, hP⟩
  · rw [hnone] at hpending
    cases hpending
  · rw [hop] at hpending
    cases hpending
    exact ⟨rfl, hP⟩

/-- A read splits the stream. -/
theorem asyncRead_eq {n : Nat} {bytes rest : Bytes} {head : { bytes : Bytes // bytes.length = n }}
    (h : asyncRead n bytes = some (head, rest)) : bytes = head.1 ++ rest := by
  unfold asyncRead at h
  split at h
  · cases h
    exact (List.take_append_drop n bytes).symm
  · cases h

/-- A header was read. -/
theorem Wire.readHeader (h : Wire stream s) (hpending : s.pending = [.readHeader])
    {allocates : Nat → Bool} :
    Wire stream ({ s with pending := [] }.succeeded env allocates s .readHeader) := by
  have hwhole : Whole stream s := h.underway _ hpending
  unfold Cycle.succeeded
  dsimp only
  split
  · exact h
  · rename_i head rest hread
    have hbytes := asyncRead_eq hread
    let after : Cycle := { s with
      pending := [], conn := { s.conn with stream := rest }, header_ := headerOf head.1,
      reads := s.reads + 1 }
    have hnote : Still after (after.note (.completed .readHeader)) :=
      .of_cons rfl rfl rfl (Or.inr ⟨_, rfl⟩)
    obtain ⟨hstill, hbegins⟩ :=
      headerRead_still (s := after.note (.completed .readHeader)) rfl false
    replace hstill := hnote.trans hstill
    refine h.same hstill.exchanges hstill.sent fun op hop => ?_
    obtain ⟨rfl, hheader⟩ := hbegins.only hop
    refine ⟨?_, hstill.sent.trans (hwhole.sent.trans (by rw [hstill.written]))⟩
    rw [hstill.exchanges, hheader, hstill.stream]
    show _ = _ ++ (headerBytes (headerOf head.1) ++ rest)
    rw [headerBytes_headerOf head.2, ← hbytes]
    exact hwhole.received

/-- A payload was read. The message that is served is what was read for it, so its frame is the
next of the stream. -/
theorem Wire.readPayload (h : Wire stream s) (hpending : s.pending = [.readPayload])
    {allocates : Nat → Bool} :
    Wire stream ({ s with pending := [] }.succeeded env allocates s .readPayload) := by
  obtain ⟨hreceived, hsent⟩ := h.underway _ hpending
  unfold Cycle.succeeded
  dsimp only
  split
  · exact h
  rename_i body rest hread
  rw [asyncRead_eq hread] at hreceived
  obtain ⟨body, hlen⟩ := body
  replace hlen : body.length = min chunkSize s.header_ := hlen
  let after : Cycle := { s with
    pending := [], conn := s.conn.fill body rest (hlen.trans_le (Nat.min_le_left _ _)),
    reads := s.reads + 1 }
  have hnote : Still after (after.note (.completed .readPayload)) :=
    .of_cons rfl rfl rfl (Or.inr ⟨_, rfl⟩)
  rcases @handleRequest_exchanges env (after.note (.completed .readPayload)) rfl allocates with
    ⟨hstill, hnone⟩ | ⟨hfits, hserved⟩
  · replace hstill := hnote.trans hstill
    refine h.same hstill.exchanges hstill.sent fun op hop => ?_
    rw [hnone] at hop
    cases hop
  · replace hfits : s.header_ ≤ chunkSize := hfits
    have hsize : body.length = s.header_ := by omega
    have hbody : (body ++ s.conn.buffer.drop body.length).take s.header_ = body := by
      rw [List.take_append_of_le_length hsize.ge, List.take_of_length_le hsize.le]
    replace hserved : Exchanges ⟨(body ++ s.conn.buffer.drop body.length).take s.header_⟩
      (after.note (.completed .readPayload)) _ := hserved
    rw [hbody] at hserved
    obtain ⟨q, hq⟩ := hserved.exchanges
    rw [hnote.exchanges] at hq
    have hwhole : Whole stream ((after.note (.completed .readPayload)).handleRequest env allocates
        false) := by
      refine ⟨?_, hserved.sent.trans (hsent.trans ?_)⟩
      · rw [hq, requestBytes_append, hserved.stream, hreceived, frame, Message.size, hsize]
        show _ = _ ++ (headerBytes s.header_ ++ body) ++ rest
        simp only [List.append_assoc]
        rfl
      · rw [hserved.written, hnote.written]
    refine ⟨?_, ?_, fun op hop => ?_⟩
    · rw [hwhole.received]
      exact List.prefix_append _ _
    · rw [hserved.sent, hq, replyBytes_append]
      exact h.sent.trans (List.prefix_append _ _)
    · obtain ⟨rfl, hfirst⟩ := hserved.begins.only hop
      exact ⟨hwhole, hfirst⟩

/-- A header was written. -/
theorem Wire.writeHeader (h : Wire stream s) (hpending : s.pending = [.writeHeader])
    (htrace : Trace s.log (.answering s.replies_.msgs)) {allocates : Nat → Bool} :
    Wire stream ({ s with pending := [] }.succeeded env allocates s .writeHeader) := by
  obtain ⟨hwhole, m, rest, hmsgs, hheader⟩ := h.underway _ hpending
  rw [hmsgs] at htrace
  let after : Cycle := { s with pending := [], sent := s.sent ++ headerBytes s.header_ }
  have hnote : Still after (after.note (.completed .writeHeader)) :=
    .of_cons rfl rfl rfl (Or.inr ⟨_, rfl⟩)
  have hsent : after.sent = (writtenIn s.log).flatMap frame ++ headerBytes m.size := by
    rw [← hwhole.sent, ← hheader]
  obtain ⟨hstill, hbegins⟩ :=
    headerWritten_still (s := after.note (.completed .writeHeader)) rfl false
  replace hstill := hnote.trans hstill
  refine ⟨?_, ?_, fun op hop => ?_⟩
  · show requestBytes (exchangesIn (Cycle.headerWritten _ false).log) <+: stream
    rw [hstill.exchanges]
    exact h.received
  · show (Cycle.headerWritten _ false).sent <+: _
    rw [hstill.sent, hsent]
    show _ <+: replyBytes (exchangesIn (Cycle.headerWritten _ false).log)
    rw [hstill.exchanges]
    exact htrace.header_prefix
  · rcases hbegins with hnone | ⟨-, m', rest', last, hmsgs', hwrites, hmsg⟩
    · cases hop.symm.trans hnone
    · cases hop.symm.trans hwrites
      have hsame : m' = m := (List.cons.inj (hmsgs'.symm.trans hmsgs)).1
      subst hsame
      refine ⟨?_, ?_⟩
      · show _ = requestBytes (exchangesIn (Cycle.headerWritten _ false).log) ++
          (Cycle.headerWritten _ false).conn.stream
        rw [hstill.exchanges, hstill.stream]
        exact hwhole.received
      · show (Cycle.headerWritten _ false).sent =
          (writtenIn (Cycle.headerWritten _ false).log).flatMap frame ++
            headerBytes (Cycle.headerWritten _ false).msg_.size
        rw [hstill.sent, hstill.written, hmsg]
        exact hsent

/-- A message was written. -/
theorem Wire.writeMessage (h : Wire stream s) {last : Bool}
    (hpending : s.pending = [.writeMessage last])
    (htrace : Trace s.log (.answering (s.msg_ :: s.replies_.msgs))) {allocates : Nat → Bool} :
    Wire stream ({ s with pending := [] }.succeeded env allocates s (.writeMessage last)) := by
  obtain ⟨hreceived, hsent⟩ := h.underway _ hpending
  let after : Cycle :=
    { s with pending := [], sent := s.sent ++ s.msg_.raw }.note (.wrote s.msg_)
  have htrace' : Trace after.log (.answering s.replies_.msgs) := .wrote htrace
  have hwhole : Whole stream after := by
    refine ⟨?_, ?_⟩
    · show _ = requestBytes (exchangesIn (.wrote s.msg_ :: s.log)) ++ s.conn.stream
      rw [exchangesIn_cons]
      simpa [exchangeOf] using hreceived
    · show s.sent ++ s.msg_.raw = (writtenIn (.wrote s.msg_ :: s.log)).flatMap frame
      rw [writtenIn_cons]
      simp [wroteOf, hsent, frame]
  unfold Cycle.succeeded
  dsimp only
  split
  · obtain ⟨hstill, hbegins⟩ := handleCompletion_still (s := after) rfl false
    refine hwhole.wire htrace' hstill fun op hop hwhole => ?_
    obtain ⟨rfl, -⟩ := hbegins.only hop
    exact hwhole
  · obtain ⟨hstill, hbegins⟩ := writeResponse_still (s := after) rfl false
    refine hwhole.wire htrace' hstill fun op hop hwhole => ?_
    obtain ⟨rfl, hreplies, m, rest, hmsgs, hheader⟩ := hbegins.only hop
    exact ⟨hwhole, m, rest, (congrArg MessageQueue.msgs hreplies).trans hmsgs, hheader⟩

/-- A pending operation completes without an error. -/
theorem wire_succeeded {allocates : Nat → Bool} {op : Operation} {st : Stage}
    (h : Wire stream s) (hpending : s.pending = [op]) (htrace : Trace s.log st)
    (hawaits : Awaits s op st) :
    Wire stream ({ s with pending := [] }.succeeded env allocates s op) := by
  cases op with
  | handshake =>
      have hwhole : Whole stream s := h.underway _ hpending
      have hnote : Still s ({ s with pending := [] }.note (.completed .handshake)) :=
        .of_cons rfl rfl rfl (Or.inr ⟨_, rfl⟩)
      obtain ⟨hstill, hbegins⟩ := readRequest_still
        (s := { s with pending := [] }.note (.completed .handshake)) rfl false
      refine hwhole.wire htrace (hnote.trans hstill) fun op hop hwhole => ?_
      obtain ⟨rfl, -⟩ := hbegins.only hop
      exact hwhole
  | readHeader => exact h.readHeader hpending
  | readPayload => exact h.readPayload hpending
  | writeHeader =>
      cases st with
      | gotHeader | gotPayload => exact hawaits.elim
      | answering q =>
          obtain ⟨-, rfl⟩ := hawaits
          exact h.writeHeader hpending htrace
  | writeMessage last =>
      cases st with
      | gotHeader | gotPayload => exact hawaits.elim
      | answering q =>
          obtain ⟨rfl, -⟩ := hawaits
          exact h.writeMessage hpending htrace

/-- What changes nothing but the timer, the world and the log. -/
theorem Wire.idle (h : Wire stream s) (hstill : Still s s') (hpending : s'.pending = s.pending)
    (hheader : s'.header_ = s.header_) (hmsg : s'.msg_ = s.msg_)
    (hreplies : s'.replies_ = s.replies_) : Wire stream s' := by
  refine h.same hstill.exchanges hstill.sent fun op hop => ?_
  have hunderway := h.underway op (hpending.symm.trans hop)
  cases op with
  | handshake | readHeader => exact Whole.still hunderway hstill
  | readPayload =>
      refine ⟨?_, hstill.sent.trans (hunderway.2.trans (by rw [hstill.written]))⟩
      rw [hstill.exchanges, hstill.stream, hheader]
      exact hunderway.1
  | writeHeader =>
      refine ⟨hunderway.1.still hstill, ?_⟩
      rw [hreplies, hheader]
      exact hunderway.2
  | writeMessage last =>
      refine ⟨?_, ?_⟩
      · rw [hstill.exchanges, hstill.stream]
        exact hunderway.1
      · rw [hstill.sent, hstill.written, hmsg]
        exact hunderway.2

/-- What happens to the timer alone. -/
theorem Wire.timer (h : Wire stream s) (armed : Option Wait) (queued : List (Wait × WaitResult))
    (w : World) : Wire stream { s with armed := armed, queued := queued, world := w } :=
  h.idle ⟨rfl, rfl, rfl, rfl⟩ rfl rfl rfl rfl

/-- An operation fails, and no other is pending. -/
theorem Wire.failed (h : Wire stream s) (hpending : s.pending.length ≤ 1) {k : Nat}
    (hk : k < s.pending.length) (op : Operation) :
    Wire stream ({ s with pending := s.pending.eraseIdx k }.failed env op) := by
  have hnone : s.pending.eraseIdx k = [] := by
    refine List.eq_nil_of_length_eq_zero ?_
    rw [List.length_eraseIdx_of_lt hk]
    omega
  obtain ⟨hstill, hlast⟩ :=
    @failed_still env { s with pending := s.pending.eraseIdx k } hnone op
  refine h.same hstill.exchanges hstill.sent fun op' hop => ?_
  rw [hlast] at hop
  cases hop

/-- The handler of a wait. -/
theorem Wire.timerHandler (h : Wire stream s) (r : WaitResult) :
    Wire stream (s.timerHandler r) := by
  cases r with
  | success =>
      obtain ⟨hstill, hpending⟩ := still_shutdown { s with timedOut := true }
      obtain ⟨armed, queued, world, conn, lines, heq⟩ := shutdown_eq { s with timedOut := true }
      rw [heq] at hstill hpending
      simp only [Cycle.timerHandler, heq]
      exact h.idle ⟨hstill.sent, hstill.stream, hstill.exchanges, hstill.written⟩ hpending
        rfl rfl rfl
  | operationAborted => exact h
  | otherError =>
      obtain ⟨armed, queued, heq⟩ := scheduleTimeout_eq s
      simp only [Cycle.timerHandler, heq]
      exact h.timer armed queued s.world

/-- Every event of a connection keeps the invariant. -/
theorem wire_step {e : Cycle.Event} (h : Wire stream s) (hphase : Phase s) :
    Wire stream (Cycle.step env s e) := by
  unfold Cycle.step
  split
  · exact h
  cases e with
  | succeed k allocates =>
      dsimp only
      split
      · rename_i op hk
        cases hphase with
        | ended st hpending =>
            rw [hpending] at hk
            cases hk
        | waiting op' st hpending hhalt htrace hawaits =>
            rw [hpending] at hk ⊢
            obtain ⟨rfl, rfl⟩ : k = 0 ∧ op' = op := by
              cases k with
              | zero => exact ⟨rfl, Option.some.inj hk⟩
              | succ k => cases hk
            exact wire_succeeded h hpending htrace hawaits
      · exact h
  | fail k =>
      dsimp only
      split
      · rename_i op hk
        exact h.failed hphase.onePending (List.getElem?_eq_some_iff.mp hk).1 op
      · exact h
  | expire | timerFault =>
      simp only [Cycle.complete]
      split
      · exact h.timer _ _ s.world
      · exact h
  | deliver k =>
      dsimp only
      split
      · exact h
      split
      · exact (h.timer s.armed _ s.world).timerHandler _
      · exact h
  | elsewhere w => exact h.timer s.armed s.queued w

/-- A connection begins with nothing read and nothing written. -/
theorem wire_start (w : World) (isAuth isSynced : Bool) (ip stream : Bytes) :
    Wire stream (Cycle.start w isAuth isSynced ip stream) where
  received := List.nil_prefix
  sent := List.nil_prefix
  underway := fun op hop => by
    obtain rfl : op = .handshake := (List.cons.inj hop).1.symm
    exact ⟨rfl, rfl⟩

/-- In every run of a connection, the requests that were served are the frames at the front of
what the client sends, and what was sent back is the front of the frames of their replies. -/
theorem wire_run (env : Env) (w : World) (isAuth isSynced : Bool) (ip stream : Bytes)
    (es : List Cycle.Event) :
    Wire stream (run (Cycle.step env) (Cycle.start w isAuth isSynced ip stream) es) :=
  (invariant_always (I := fun s => Wire stream s ∧ Phase s)
    ⟨wire_start w isAuth isSynced ip stream, phase_start w isAuth isSynced ip stream⟩
    (fun s e h => ⟨wire_step h.1 h.2, phase_step env s e h.2⟩) es).1.1

end RemoteBackup.Proofs
