import RemoteBackup.Proofs.FailedUpdate
import RemoteBackup.Proofs.NetworkRuns
import RemoteBackup.Proofs.Printing

/-!
# `RemoteBackup.Proofs.Conversation`: every frame is answered

A connection whose operations succeed, and whose deadlines never pass, does not stop before the
end of what its client sends. Each frame costs two completions for the read and two for each
message of the reply (`todo`).

* `Conversing`: the invariant. The server still has to take the requests `ms` that were not
  served, and takes them as the connection will.
* `Due`: the completions that are left, by the operation that is pending.
* `conversing_success`, `conversing_idle`: a success is one completion less, and nothing else
  counts.
* `conversation_completes`: the runs.
-/

set_option autoImplicit false

namespace RemoteBackup.Proofs

open Lib

variable {env : Env}

/-! ### What is left to do -/

/-- The completions that these exchanges take: a header and a payload, and two for each message
of the reply. -/
def todo (xs : List (Message × List Message)) : Nat := (xs.map fun x => 2 + 2 * x.2.length).sum

/-- A message that a client can send: it fits into the buffer, it can be printed to its end, and
its type has a name. -/
structure Sendable (m : Message) : Prop where
  fits : m.size ≤ chunkSize
  printable : ∃ text, m.printed = .ok (some text)
  named : ∃ msgType str, m.msgType = some msgType ∧ msgTypeStrMap.lookup msgType = some str

/-- It has a type byte, so it is not empty. -/
theorem Sendable.size_ne_zero {m : Message} (h : Sendable m) : m.size ≠ 0 := by
  obtain ⟨msgType, -, htype, -⟩ := h.named
  rw [Message.size, ne_eq, List.length_eq_zero_iff]
  intro hnil
  rw [Message.msgType, hnil] at htype
  cases htype

/-- The events of a connection whose operations succeed in time. Whatever vector is asked for up
to the size of the buffer can be made. -/
def Smooth : Cycle.Event → Prop
  | .succeed k allocates => k = 0 ∧ ∀ n ≤ chunkSize, allocates n = true
  | .timerFault => True
  | .deliver _ => True
  | _ => False

/-- An operation completes without an error. -/
def isSuccess : Cycle.Event → Bool
  | .succeed _ _ => true
  | _ => false

/-- No deadline has passed. -/
def Calm (queued : List (Wait × WaitResult)) : Prop := ∀ p ∈ queued, p.2 ≠ .success

/-- Where a connection is in its conversation: `t` is the server that has taken what the
connection has served, `ms` are the messages still to come, and `t'` and `xs` are the server and
the exchanges at the end. -/
structure Conversing (env : Env) (t' : Server) (xs : List (Message × List Message)) (t : Server)
    (ms : List Message) (s : Cycle) : Prop where
  halt : s.halt = none
  timedOut : s.timedOut = false
  calm : Calm s.queued
  named : ∃ str, msgTypeStrMap.lookup s.replies_.msgType = some str
  world : t.world = s.world
  session : t.sessions 0 = some s.user_
  last : run (Server.step env) t (requests 0 ms) = t'
  running : t'.halt = none
  exchanges : exchangesIn s.log ++ exchangesOf env 0 t (requests 0 ms) = xs
  sendable : ∀ m ∈ ms, Sendable m

/-- The completions that are left before the next read of a header that finds nothing, when `rest`
are left for the messages still to come. -/
inductive Due (s : Cycle) (rest : Nat) : List Message → Nat → Prop
  | handshake (ms : List Message) (hpending : s.pending = [.handshake])
      (hstream : s.conn.stream = ms.flatMap frame) : Due s rest ms (rest + 1)
  | readHeader (ms : List Message) (hpending : s.pending = [.readHeader])
      (hstream : s.conn.stream = ms.flatMap frame) : Due s rest ms rest
  | readPayload (m : Message) (ms : List Message) (k : Nat) (hpending : s.pending = [.readPayload])
      (hheader : s.header_ = m.size) (hstream : s.conn.stream = m.raw ++ ms.flatMap frame)
      (hk : k + 1 = rest) : Due s rest (m :: ms) k
  | writeHeader (ms : List Message) (hpending : s.pending = [.writeHeader])
      (hstream : s.conn.stream = ms.flatMap frame) (hmsgs : s.replies_.msgs ≠ []) :
      Due s rest ms (rest + 2 * s.replies_.msgs.length)
  | writeMessage (ms : List Message) (hpending :
        s.pending = [.writeMessage s.replies_.msgs.isEmpty])
      (hstream : s.conn.stream = ms.flatMap frame) :
      Due s rest ms (rest + 2 * s.replies_.msgs.length + 1)

/-! ### The server that is ahead -/

/-- A queue whose messages all have a type has it itself. -/
theorem Carries.queue_msgType {q : MessageQueue} {tlvs : List (UInt8 × Bytes)} {msgType : UInt8}
    (h : Carries q tlvs) (hall : ∀ m ∈ q.msgs, m.msgType = some msgType) :
    q.msgType = msgType := by
  obtain ⟨m, rest, hmsgs⟩ := List.exists_cons_of_ne_nil h.ne_nil
  have hm : m ∈ q.msgs := by simp [hmsgs]
  exact Option.some.inj ((h.msgType hm).symm.trans (hall m hm))

/-- The next request is answered, and the server takes it as the connection does. -/
theorem Conversing.next {t' t : Server} {xs : List (Message × List Message)} {m : Message}
    {ms : List Message} {s : Cycle} (h : Conversing env t' xs t (m :: ms) s) :
    ∃ r, (handleRequest env s.world s.user_ m).result = .ok r ∧ r.replies.msgs ≠ [] ∧
      (∃ str, msgTypeStrMap.lookup r.replies.msgType = some str) ∧
      (Server.step env t (.request 0 m)).world = (handleRequest env s.world s.user_ m).world ∧
      (Server.step env t (.request 0 m)).sessions 0 =
        some (handleRequest env s.world s.user_ m).user ∧
      run (Server.step env) (Server.step env t (.request 0 m)) (requests 0 ms) = t' ∧
      exchangesOf env 0 t (requests 0 (m :: ms)) =
        (m, r.replies.msgs) ::
          exchangesOf env 0 (Server.step env t (.request 0 m)) (requests 0 ms) := by
  have hhalt : t.halt = none := by
    cases hhalt : t.halt with
    | none => rfl
    | some e =>
        have hstop := h.last
        rw [run_of_halt hhalt] at hstop
        have hrunning := h.running
        rw [← hstop, hhalt] at hrunning
        cases hrunning
  have hserved : Server.step env t (.request 0 m) = t.serve env 0 s.user_ m :=
    step_request m hhalt h.session
  have hlast : run (Server.step env) (Server.step env t (.request 0 m)) (requests 0 ms) = t' :=
    h.last
  cases hresult : (handleRequest env s.world s.user_ m).result with
  | error e =>
      -- The server would have stopped.
      have hstop : (Server.step env t (.request 0 m)).halt = some e := by
        rw [hserved, Server.serve, h.world, hresult]
      rw [run_of_halt hstop] at hlast
      rw [hlast, h.running] at hstop
      cases hstop
  | ok r =>
      obtain ⟨msgType, str, htype, hname⟩ := (h.sendable m (by simp)).named
      obtain ⟨items, hshaped, -⟩ :=
        perform_shaped htype (handleRequest_eq_perform env s.world s.user_ m ▸ hresult)
      obtain ⟨value, hcarries⟩ := hshaped.tlvs
      refine ⟨r, rfl, hshaped.ne_nil, ⟨str, ?_⟩, ?_, ?_, hlast, ?_⟩
      · rw [hcarries.queue_msgType hshaped.msgTypes]
        exact hname
      · rw [hserved, Server.serve, h.world]
      · rw [hserved, Server.serve, h.world]
        exact Function.update_self 0 _ t.sessions
      · show exchanged env 0 t (.request 0 m) ++ _ = _
        rw [exchanged, if_pos ⟨rfl, hhalt⟩, h.session, h.world]
        simp [hresult, messagesOf, requests]

/-! ### One event -/

/-- A wait that was cancelled does not disturb a calm queue. -/
theorem Calm.append_aborted {queued : List (Wait × WaitResult)} (h : Calm queued) (wait : Wait) :
    Calm (queued ++ [(wait, .operationAborted)]) := by
  intro p hp
  rcases List.mem_append.mp hp with hp | hp
  · exact h p hp
  · rw [List.mem_singleton.mp hp]
    simp

/-- `cancel` keeps the queue calm. -/
theorem cancel_calm {s : Cycle} (h : Calm s.queued) : ∃ armed queued,
    s.cancel = { s with armed := armed, queued := queued } ∧ Calm queued := by
  unfold Cycle.cancel
  split
  · exact ⟨_, _, rfl, h.append_aborted _⟩
  · exact ⟨_, _, rfl, h⟩

/-- Arming the timer keeps the queue calm. -/
theorem scheduleTimeout_calm {s : Cycle} (h : Calm s.queued) : ∃ armed queued,
    s.scheduleTimeout = { s with armed := armed, queued := queued } ∧ Calm queued := by
  obtain ⟨armed, queued, heq, hcalm⟩ := cancel_calm h
  rw [Cycle.scheduleTimeout, heq]
  exact ⟨_, _, rfl, hcalm⟩

variable {t' t : Server} {xs : List (Message × List Message)} {ms : List Message} {s : Cycle}

/-- The completions for the messages still to come. -/
abbrev restOf (env : Env) (t : Server) (ms : List Message) : Nat :=
  todo (exchangesOf env 0 t (requests 0 ms))

/-- The connection is in its conversation, and `k` completions are left. -/
def Owes (env : Env) (t' : Server) (xs : List (Message × List Message)) (s : Cycle) (k : Nat) :
    Prop :=
  ∃ t ms, Conversing env t' xs t ms s ∧ Due s (restOf env t ms) ms k

/-- `read_request` begins the next read. -/
theorem Conversing.readRequest (h : Conversing env t' xs t ms s) (hpending : s.pending = [])
    (hstream : s.conn.stream = ms.flatMap frame) :
    Owes env t' xs (s.readRequest false) (restOf env t ms) := by
  obtain ⟨armed, queued, heq, hcalm⟩ := scheduleTimeout_calm h.calm
  have hread : s.readRequest false =
      { s with armed := armed, queued := queued }.begin .readHeader := by
    simp [Cycle.readRequest, h.timedOut, heq]
  rw [hread]
  refine ⟨t, ms, ?_, .readHeader ms (by simp [Cycle.begin, hpending]) hstream⟩
  exact ⟨h.halt, h.timedOut, hcalm, h.named, h.world, h.session, h.last, h.running,
    by simpa [Cycle.begin, exchangesIn_cons, exchangeOf] using h.exchanges, h.sendable⟩

/-- `write_response` begins with the first message. -/
theorem Conversing.writeResponse (h : Conversing env t' xs t ms s) (hpending : s.pending = [])
    (hstream : s.conn.stream = ms.flatMap frame) (hmsgs : s.replies_.msgs ≠ []) :
    Owes env t' xs (s.writeResponse false)
      (restOf env t ms + 2 * s.replies_.msgs.length) := by
  obtain ⟨m, tail, hcons⟩ := List.exists_cons_of_ne_nil hmsgs
  have hwrite : s.writeResponse false = { s with header_ := m.size }.begin .writeHeader := by
    simp [Cycle.writeResponse, h.timedOut, hcons]
  rw [hwrite]
  refine ⟨t, ms, ?_, .writeHeader ms (by simp [Cycle.begin, hpending]) hstream hmsgs⟩
  exact ⟨h.halt, h.timedOut, h.calm, h.named, h.world, h.session, h.last, h.running,
    by simpa [Cycle.begin, exchangesIn_cons, exchangeOf] using h.exchanges, h.sendable⟩

/-- A frame takes at least two completions. -/
theorem Conversing.rest_cons {m : Message} (h : Conversing env t' xs t (m :: ms) s) :
    2 ≤ restOf env t (m :: ms) := by
  obtain ⟨r, -, -, -, -, -, -, hexchanges⟩ := h.next
  rw [restOf, hexchanges, todo, List.map_cons, List.sum_cons]
  omega

/-- The header of the next frame has come: one completion less. -/
theorem Conversing.headerRead {m : Message} (h : Conversing env t' xs t (m :: ms) s)
    (hstream : s.conn.stream = (m :: ms).flatMap frame) (allocates : Nat → Bool) :
    Owes env t' xs ({ s with pending := [] }.succeeded env allocates s .readHeader)
      (restOf env t (m :: ms) - 1) := by
  have hsize : m.size < 2 ^ 64 := by
    have hfits := (h.sendable m (by simp)).fits
    rw [chunkSize] at hfits
    omega
  have hread : asyncRead headerSize s.conn.stream =
      some (⟨headerBytes m.size, headerBytes_length m.size⟩, m.raw ++ ms.flatMap frame) := by
    rw [hstream, List.flatMap_cons, frame, List.append_assoc]
    exact asyncRead_append (headerBytes_length m.size) _
  obtain ⟨armed, queued, heq, hcalm⟩ := scheduleTimeout_calm (s := { s with
    pending := [], conn := { s.conn with stream := m.raw ++ ms.flatMap frame },
    header_ := headerOf (headerBytes m.size),
    reads := s.reads + 1 }.note (.completed .readHeader)) h.calm
  simp only [Cycle.succeeded, hread, Cycle.headerRead]
  rw [if_neg (by simp [Cycle.note, h.timedOut]), if_neg (by simp), heq]
  refine ⟨t, m :: ms, ?_, .readPayload m ms _ ?_ ?_ rfl ?_⟩
  · refine ⟨h.halt, h.timedOut, hcalm, h.named, h.world, h.session, h.last, h.running, ?_,
      h.sendable⟩
    simpa [Cycle.begin, Cycle.note, exchangesIn_cons, exchangeOf] using h.exchanges
  · rfl
  · exact headerOf_headerBytes hsize
  · have htwo := h.rest_cons
    omega

/-- The next request has come and is served: the completions of its reply are left. -/
theorem Conversing.payloadRead {m : Message} (h : Conversing env t' xs t (m :: ms) s)
    (hheader : s.header_ = m.size) (hstream : s.conn.stream = m.raw ++ ms.flatMap frame)
    {allocates : Nat → Bool} (hallocates : ∀ n ≤ chunkSize, allocates n = true) :
    Owes env t' xs ({ s with pending := [] }.succeeded env allocates s .readPayload)
      (restOf env t (m :: ms) - 2) := by
  obtain ⟨r, hresult, hmsgs, hnamed, hworld, hsession, hlast, hexchanges⟩ := h.next
  have hfits := (h.sendable m (by simp)).fits
  have hlen : m.raw.length = min chunkSize s.header_ := by
    rw [hheader]
    exact (Nat.min_eq_right hfits).symm
  have hread : asyncRead (min chunkSize s.header_) s.conn.stream =
      some (⟨m.raw, hlen⟩, ms.flatMap frame) := by
    rw [hstream]
    exact asyncRead_append hlen _
  -- The message that the request handler sees is `m`.
  have hbuffer : ∀ (h : m.raw.length ≤ chunkSize),
      (s.conn.fill m.raw (ms.flatMap frame) h).handleRequest allocates s.header_ =
        (.message m, s.conn.fill m.raw (ms.flatMap frame) h) := by
    intro hle
    rw [Connection.handleRequest, hallocates _ (hheader ▸ hfits), if_neg (by simp),
      if_neg (hheader ▸ (h.sendable m (by simp)).size_ne_zero), Connection.buffer_length,
      if_pos (hheader ▸ hfits), hheader]
    simp [Connection.fill, Message.size]
  obtain ⟨armed, queued, heq, hcalm⟩ := cancel_calm (s := { s with
    pending := [], conn := s.conn.fill m.raw (ms.flatMap frame) (by omega),
    reads := s.reads + 1 }.note (.completed .readPayload)) h.calm
  simp only [Cycle.succeeded, hread, Cycle.handleRequest]
  rw [if_neg (by simp [Cycle.note, h.timedOut]), if_neg (by simp)]
  simp only [Cycle.note, hbuffer] at heq ⊢
  obtain ⟨text, hprinted⟩ := (h.sendable m (by simp)).printable
  rw [heq]
  unfold Cycle.print Cycle.serve
  simp only [hprinted, hresult]
  have hafter := @Conversing.writeResponse env t' (Server.step env t (.request 0 m)) xs ms
    { s with
      pending := [], conn := s.conn.fill m.raw (ms.flatMap frame) (by omega),
      reads := s.reads + 1, armed := armed, queued := queued, msg_ := m, replies_ := r.replies,
      user_ := (handleRequest env s.world s.user_ m).user,
      world := (handleRequest env s.world s.user_ m).world,
      log := .served m s.replies_.msgs r.replies.msgs :: .completed .readPayload :: s.log }
    ⟨h.halt, h.timedOut, hcalm, hnamed, hworld, hsession, hlast, h.running, ?_,
      fun x hx => h.sendable x (by simp [hx])⟩ rfl rfl hmsgs
  · have hrest : restOf env t (m :: ms) - 2 =
        restOf env (Server.step env t (.request 0 m)) ms + 2 * r.replies.msgs.length := by
      rw [restOf, hexchanges, todo, List.map_cons, List.sum_cons]
      simp only [restOf, todo]
      omega
    rw [hrest]
    exact hafter
  · rw [← h.exchanges, hexchanges]
    simp [exchangesIn_cons, exchangeOf]

/-- The header of a message is out, and the message follows. -/
theorem Conversing.headerWritten (h : Conversing env t' xs t ms s)
    (hstream : s.conn.stream = ms.flatMap frame) (hmsgs : s.replies_.msgs ≠ [])
    (allocates : Nat → Bool) :
    Owes env t' xs ({ s with pending := [] }.succeeded env allocates s .writeHeader)
      (restOf env t ms + 2 * s.replies_.msgs.length - 1) := by
  obtain ⟨m, tail, hcons⟩ := List.exists_cons_of_ne_nil hmsgs
  simp only [Cycle.succeeded, Cycle.headerWritten, Cycle.note, h.timedOut, Bool.false_eq_true,
    if_false, hcons]
  have hlen : restOf env t ms + 2 * (m :: tail).length - 1 =
      restOf env t ms + 2 * tail.length + 1 := by
    rw [List.length_cons]
    omega
  rw [hlen]
  refine ⟨t, ms, ?_, .writeMessage ms rfl hstream⟩
  exact ⟨h.halt, rfl, h.calm, h.named, h.world, h.session, h.last, h.running,
    by simpa [Cycle.begin, exchangesIn_cons, exchangeOf] using h.exchanges, h.sendable⟩

/-- A message is out. The next one follows, or the next header is read. -/
theorem Conversing.messageWritten (h : Conversing env t' xs t ms s)
    (hstream : s.conn.stream = ms.flatMap frame) (allocates : Nat → Bool) :
    Owes env t' xs ({ s with pending := [] }.succeeded env allocates s
        (.writeMessage s.replies_.msgs.isEmpty))
      (restOf env t ms + 2 * s.replies_.msgs.length) := by
  let after : Cycle :=
    { s with pending := [], sent := s.sent ++ s.msg_.raw }.note (.wrote s.msg_)
  have hafter : Conversing env t' xs t ms after :=
    ⟨h.halt, h.timedOut, h.calm, h.named, h.world, h.session, h.last, h.running,
      by simpa [after, Cycle.note, exchangesIn_cons, exchangeOf] using h.exchanges, h.sendable⟩
  unfold Cycle.succeeded
  dsimp only
  split
  · rename_i hlast
    rw [List.isEmpty_iff.mp hlast, List.length_nil, Nat.mul_zero, Nat.add_zero]
    obtain ⟨str, hname⟩ := h.named
    have hlog : ((after.note .handledCompletion).logWrite false) =
        { after.note .handledCompletion with
          lines := (logUser s.user_ ++ ascii "TYPE: " ++ str ++ ascii " RES: " ++
            resTypeStr (if s.replies_.verifyError then .err else .ok) ++ ascii " CON: " ++
            resTypeStr .ok ++ ascii "]") :: s.lines } := by
      simp only [Cycle.logWrite, Cycle.logResult, RemoteBackup.logResult, after, Cycle.note, hname]
      rfl
    show Owes env t' xs (after.handleCompletion false) _
    unfold Cycle.handleCompletion
    dsimp only
    rw [if_neg (by simp [after, Cycle.note, h.timedOut]), hlog, Cycle.andThen,
      if_neg (by simp [after, Cycle.note, h.halt]), if_neg (by simp)]
    refine Conversing.readRequest ?_ rfl hstream
    exact ⟨h.halt, h.timedOut, h.calm, ⟨str, hname⟩, h.world, h.session, h.last, h.running,
      by simpa [Cycle.note, exchangesIn_cons, exchangeOf] using hafter.exchanges, h.sendable⟩
  · rename_i hmore
    exact hafter.writeResponse rfl hstream fun hnil => hmore (List.isEmpty_iff.mpr hnil)

/-- A success is one completion less. -/
theorem conversing_success {k : Nat} {allocates : Nat → Bool}
    (hallocates : ∀ n ≤ chunkSize, allocates n = true) (h : Owes env t' xs s k) :
    Owes env t' xs (Cycle.step env s (.succeed 0 allocates)) (k - 1) := by
  obtain ⟨t, ms, hconv, hdue⟩ := h
  have hstep : ∀ op, s.pending = [op] → Cycle.step env s (.succeed 0 allocates) =
      { s with pending := [] }.succeeded env allocates s op := by
    intro op hpending
    rw [Cycle.step, if_neg (by simp [hconv.halt])]
    simp [hpending]
  cases hdue with
  | handshake ms hpending hstream =>
      rw [hstep _ hpending]
      refine Conversing.readRequest ?_ rfl hstream
      exact ⟨hconv.halt, hconv.timedOut, hconv.calm, hconv.named, hconv.world, hconv.session,
        hconv.last, hconv.running,
        by simpa [Cycle.note, exchangesIn_cons, exchangeOf] using hconv.exchanges, hconv.sendable⟩
  | readHeader ms hpending hstream =>
      rw [hstep _ hpending]
      cases ms with
      | cons m ms => exact hconv.headerRead hstream allocates
      | nil =>
          -- The client sends no more, so the read does not complete.
          have hread : asyncRead headerSize s.conn.stream = none := by
            rw [hstream]
            rfl
          simp only [Cycle.succeeded, hread]
          exact ⟨t, [], hconv, .readHeader [] hpending hstream⟩
  | readPayload m ms k hpending hheader hstream hk =>
      rw [hstep _ hpending, show k - 1 = restOf env t (m :: ms) - 2 by omega]
      exact hconv.payloadRead hheader hstream hallocates
  | writeHeader ms hpending hstream hmsgs =>
      rw [hstep _ hpending]
      exact hconv.headerWritten hstream hmsgs allocates
  | writeMessage ms hpending hstream =>
      rw [hstep _ hpending, Nat.add_sub_cancel]
      exact hconv.messageWritten hstream allocates

/-- What the timer does is not noticed. -/
theorem Owes.withTimer {k : Nat} (h : Owes env t' xs s k) (armed : Option Wait)
    {queued : List (Wait × WaitResult)} (hcalm : Calm s.queued → Calm queued) :
    Owes env t' xs { s with armed := armed, queued := queued } k := by
  obtain ⟨t, ms, hconv, hdue⟩ := h
  refine ⟨t, ms, ⟨hconv.halt, hconv.timedOut, hcalm hconv.calm, hconv.named, hconv.world,
    hconv.session, hconv.last, hconv.running, hconv.exchanges, hconv.sendable⟩, ?_⟩
  cases hdue with
  | handshake ms hpending hstream => exact .handshake ms hpending hstream
  | readHeader ms hpending hstream => exact .readHeader ms hpending hstream
  | readPayload m ms k hpending hheader hstream hk =>
      exact .readPayload m ms k hpending hheader hstream hk
  | writeHeader ms hpending hstream hmsgs => exact .writeHeader ms hpending hstream hmsgs
  | writeMessage ms hpending hstream => exact .writeMessage ms hpending hstream

/-- One event. A success is one completion less, and nothing else counts. -/
theorem conversing_step {k : Nat} {e : Cycle.Event} (hsmooth : Smooth e)
    (h : Owes env t' xs s k) :
    Owes env t' xs (Cycle.step env s e) (if isSuccess e then k - 1 else k) := by
  cases e with
  | succeed i allocates =>
      obtain ⟨rfl, hallocates⟩ := hsmooth
      exact conversing_success hallocates h
  | fail | expire | elsewhere => exact hsmooth.elim
  | timerFault =>
      show Owes env t' xs _ k
      have hhalt := h.choose_spec.choose_spec.1.halt
      rw [Cycle.step, if_neg (by simp [hhalt])]
      simp only [Cycle.complete]
      split
      · refine h.withTimer _ fun hcalm p hp => ?_
        rcases List.mem_append.mp hp with hp | hp
        · exact hcalm p hp
        · rw [List.mem_singleton.mp hp]
          simp
      · exact h
  | deliver i =>
      show Owes env t' xs _ k
      obtain ⟨hhalt, hcalm⟩ : s.halt = none ∧ Calm s.queued := by
        obtain ⟨t, ms, hconv, -⟩ := h
        exact ⟨hconv.halt, hconv.calm⟩
      have herased : Calm s.queued → Calm (s.queued.eraseIdx i) := fun hcalm p hp =>
        hcalm p (List.mem_of_mem_eraseIdx hp)
      rw [Cycle.step, if_neg (by simp [hhalt])]
      split
      · exact h
      split
      · rename_i wait r hwait
        cases r with
        | success => exact absurd rfl (hcalm _ (List.mem_of_getElem? hwait))
        | operationAborted => exact h.withTimer s.armed herased
        | otherError =>
            obtain ⟨armed, queued, heq, hqueued⟩ := scheduleTimeout_calm
              (s := { s with queued := s.queued.eraseIdx i }) (herased hcalm)
            simp only [Cycle.timerHandler, heq]
            exact h.withTimer armed fun _ => hqueued
      · exact h

/-! ### Runs -/

/-- Whole runs. Induction on the events. -/
theorem conversing_run {k : Nat} (es : List Cycle.Event) (hsmooth : ∀ e ∈ es, Smooth e)
    (h : Owes env t' xs s k) :
    Owes env t' xs (run (Cycle.step env) s es) (k - es.countP isSuccess) := by
  induction es generalizing s k with
  | nil => exact h
  | cons e es ih =>
      have hstep := conversing_step (hsmooth e (by simp)) h
      have hrun := ih (fun e he => hsmooth e (by simp [he])) hstep
      have hcount : (if isSuccess e then k - 1 else k) - es.countP isSuccess =
          k - (e :: es).countP isSuccess := by
        rw [List.countP_cons]
        split <;> omega
      rwa [hcount] at hrun

/-- A server that does not stop serves every request. Induction on them. -/
theorem exchangesOf_requests {t : Server} {u : User} (hsession : t.sessions 0 = some u)
    (hrunning : (run (Server.step env) t (requests 0 ms)).halt = none) :
    (exchangesOf env 0 t (requests 0 ms)).map Prod.fst = ms := by
  induction ms generalizing t u with
  | nil => rfl
  | cons m ms ih =>
      have hhalt : t.halt = none := by
        cases hhalt : t.halt with
        | none => rfl
        | some e =>
            rw [run_of_halt hhalt, hhalt] at hrunning
            cases hrunning
      have hnext : (Server.step env t (.request 0 m)).sessions 0 =
          some (handleRequest env t.world u m).user := by
        rw [step_request m hhalt hsession]
        exact Function.update_self 0 _ t.sessions
      show (exchanged env 0 t (.request 0 m) ++ _).map Prod.fst = _
      rw [exchanged, if_pos ⟨rfl, hhalt⟩, hsession, List.map_append]
      exact congrArg (m :: ·) (ih hnext hrunning)

/-- Nothing is left: all messages were served, and the connection waits for the next header. -/
theorem Owes.over (h : Owes env t' xs s 0) :
    s.pending = [.readHeader] ∧ s.conn.stream = [] ∧ s.world = t'.world ∧
      t'.sessions 0 = some s.user_ ∧ exchangesIn s.log = xs := by
  obtain ⟨t, ms, hconv, hdue⟩ := h
  generalize hk : 0 = k at hdue
  have hfirst : ∀ m ms', ms = m :: ms' → restOf env t ms ≠ 0 := by
    rintro m ms' rfl
    have htwo := hconv.rest_cons
    omega
  cases hdue with
  | handshake ms hpending hstream => omega
  | readHeader ms hpending hstream =>
      obtain rfl : ms = [] := by
        cases ms with
        | nil => rfl
        | cons m ms => exact absurd hk.symm (hfirst m ms rfl)
      have hlast : t = t' := hconv.last
      subst hlast
      exact ⟨hpending, hstream, hconv.world.symm, hconv.session,
        (List.append_nil _).symm.trans hconv.exchanges⟩
  | readPayload m ms k hpending hheader hstream hrest =>
      have htwo := hconv.rest_cons
      omega
  | writeHeader ms hpending hstream hmsgs =>
      have hpos := List.length_pos_iff.mpr hmsgs
      omega
  | writeMessage ms hpending hstream => omega

/-- A connection that waits for a header has written its replies. -/
theorem Phase.reading (h : Phase s) (hpending : s.pending = [.readHeader]) :
    ∃ q, Trace s.log (.answering q) ∧ q = [] := by
  cases h with
  | ended st hnone => cases hnone.symm.trans hpending
  | waiting op st hop hhalt htrace hawaits =>
      cases hop.symm.trans hpending
      cases st with
      | gotHeader | gotPayload => exact hawaits.elim
      | answering q => exact ⟨q, htrace, hawaits.1⟩

/-- **Every frame is answered.** The client sends the frames of `ms`, each of them no longer than
the buffer, of a type with a name, and such that its print comes to an end, and the server that
takes them one by one does not stop. In every run of the connection in which no operation fails and
no deadline passes, whatever the timer does besides, the process runs and the client gets the front
of the framed replies. Once enough operations have succeeded, the connection has served all
messages, the world and the session are those of the server, the client has got all replies, and
the connection waits for the next header. -/
theorem conversation_completes (env : Env) (w : World) (isAuth isSynced : Bool) (ip : Bytes)
    (ms : List Message) (hms : ∀ m ∈ ms, Sendable m) (t : Server)
    (ht : t =
      run (Server.step env) (Server.start w) (.accept 0 isAuth isSynced ip :: requests 0 ms))
    (hrunning : t.halt = none) (xs : List (Message × List Message))
    (hxs : xs = exchangesOf env 0 (Server.start w) (.accept 0 isAuth isSynced ip :: requests 0 ms))
    (es : List Cycle.Event) (hsmooth : ∀ e ∈ es, Smooth e) (s : Cycle)
    (hs : s = run (Cycle.step env) (Cycle.start w isAuth isSynced ip (ms.flatMap frame)) es) :
    s.halt = none ∧ s.sent <+: replyBytes xs ∧
      (todo xs + 1 ≤ es.countP isSuccess →
        s.pending = [.readHeader] ∧ s.conn.stream = [] ∧ s.world = t.world ∧
        t.sessions 0 = some s.user_ ∧ exchangesIn s.log = xs ∧ xs.map Prod.fst = ms ∧
        s.sent = replyBytes xs) := by
  have hsession : (Server.step env (Server.start w) (.accept 0 isAuth isSynced ip)).sessions 0 =
      some (User.fresh isAuth isSynced ip) := by
    rw [step_accept isAuth isSynced ip rfl rfl]
    exact Function.update_self 0 _ (Server.start w).sessions
  have hworld : (Server.step env (Server.start w) (.accept 0 isAuth isSynced ip)).world = w := by
    rw [step_accept isAuth isSynced ip rfl rfl]
    rfl
  have hcalm : Calm (Cycle.start w isAuth isSynced ip (ms.flatMap frame)).queued := by
    intro p hp
    cases hp
  have hstart : Owes env t xs (Cycle.start w isAuth isSynced ip (ms.flatMap frame))
      (todo xs + 1) := by
    refine ⟨_, ms, ⟨rfl, rfl, hcalm, ⟨_, rfl⟩, hworld, hsession, ht.symm, hrunning, hxs.symm, hms⟩,
      ?_⟩
    rw [hxs]
    exact .handshake ms rfl rfl
  have hrun := conversing_run es hsmooth hstart
  have hwire := wire_run env w isAuth isSynced ip (ms.flatMap frame) es
  have hphase : Phase s := by
    rw [hs]
    exact (invariant_always (phase_start w isAuth isSynced ip _) (phase_step env) es).1
  rw [← hs] at hrun hwire
  obtain ⟨t0, ms0, hconv, -⟩ := id hrun
  refine ⟨hconv.halt, ?_, fun hcount => ?_⟩
  · rw [← hconv.exchanges, replyBytes, List.flatMap_append]
    exact hwire.sent.trans (List.prefix_append _ _)
  · rw [Nat.sub_eq_zero_of_le hcount] at hrun
    obtain ⟨hpending, hstream, hworld, hsession', hexchanges⟩ := hrun.over
    refine ⟨hpending, hstream, hworld, hsession', hexchanges, ?_, ?_⟩
    · rw [ht] at hrunning
      rw [hxs]
      exact exchangesOf_requests hsession hrunning
    · have hsent : s.sent = (writtenIn s.log).flatMap frame := (hwire.underway _ hpending).sent
      obtain ⟨q, htrace, rfl⟩ := hphase.reading hpending
      rw [hsent, ← hexchanges, replyBytes_eq, ← htrace.written_replies, Stage.unwritten,
        List.append_nil]

/-- `bobby` logs in, synchronizes and sends the first chunk of `/a`. -/
def bobbyMessages : List Message :=
  [bobbyAuth, bareMessage .sync, chunk .create (ascii "/a") (ascii "00") (ascii "hi") false]

/-- What a server that takes them one by one answers. -/
def bobbyExchanges : List (Message × List Message) :=
  exchangesOf (bobbyAndBobEnv []) 0 (Server.start bobbyWorld)
    (.accept 0 false false (ascii "127.0.0.1") :: requests 0 bobbyMessages)

/-- The connection after thirteen completions. -/
def bobbyTalks : Cycle :=
  run (Cycle.step (bobbyAndBobEnv []))
    (Cycle.start bobbyWorld false false (ascii "127.0.0.1") (bobbyMessages.flatMap frame))
    (List.replicate 13 (.succeed 0 fun _ => true))

/-- Thirteen completions, and `bobby` has got his three replies. -/
theorem conversation_completes_bobby :
    bobbyTalks.halt = none ∧ bobbyExchanges.map Prod.fst = bobbyMessages ∧
      bobbyTalks.sent = replyBytes bobbyExchanges := by
  obtain ⟨hhalt, -, hall⟩ := conversation_completes (bobbyAndBobEnv []) bobbyWorld false false
    (ascii "127.0.0.1") bobbyMessages
    (fun m hm => by
      simp only [bobbyMessages, List.mem_cons, List.not_mem_nil, or_false] at hm
      rcases hm with rfl | rfl | rfl <;>
        exact ⟨by decide +kernel, ⟨_, printed_encode _ (by decide +kernel)⟩, _, _, rfl, rfl⟩)
    _ rfl (by decide +kernel) bobbyExchanges rfl (List.replicate 13 (.succeed 0 fun _ => true))
    (fun e he => by
      rw [List.eq_of_mem_replicate he]
      exact ⟨rfl, fun _ _ => rfl⟩) bobbyTalks rfl
  obtain ⟨-, -, -, -, -, hserved, hsent⟩ := hall (by decide +kernel)
  exact ⟨hhalt, hserved, hsent⟩

end RemoteBackup.Proofs
