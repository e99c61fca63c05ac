import RemoteBackup.Communication.Print
import RemoteBackup.Core.Connection
import RemoteBackup.Core.RequestHandler
import RemoteBackup.Lib.Run
import RemoteBackup.Utilities.Logger

/-!
# `RemoteBackup.Core.Cycle`: one connection on its strand

`core/connection.cpp` as a state machine. Its events are the completions of the operations
that were started on the socket, and what happens to the timer. A handler runs on the strand,
so an event runs as a whole.

A wait of the timer ends in two moments. At the first its completion is queued, with success
when the deadline has passed and with `operation_aborted` when the wait was cancelled. At the
second the completion is delivered and its handler runs. `cancel` and `expires_after` reach
only a wait whose completion is not queued yet, and they do not throw. The handler of a wait
holds a bare pointer to the connection; here the connection outlives all its events.

A request is printed before it is served, and the print can stop the process or go on for ever
(`Message.printed`). A print that goes on for ever keeps its thread and with it the strand, and no
handler of the connection runs any more. How many threads are left for the other connections is
in `RemoteBackup.Core.Console`. The print of a reply is left out: it always ends.

`log` is not part of the source. It keeps what the connection did, latest first, and the
properties of a run are stated about it. The same holds of `Wait.reads`.
-/

set_option autoImplicit false

namespace RemoteBackup

open Lib

/-- An operation on the socket that has not completed. The continuation of the write of a
message was chosen when it was started: `handle_completion` for the last one. -/
inductive Operation where
  | handshake
  | readHeader
  | readPayload
  | writeHeader
  | writeMessage (last : Bool)
  deriving DecidableEq

/-- The code that a wait completes with. -/
inductive WaitResult where
  | success
  | operationAborted
  | otherError
  deriving DecidableEq

/-- A wait of the timer. `reads` counts the reads that were completed when it was armed. -/
structure Wait where
  reads : Nat
  deriving DecidableEq

/-- What a connection does, as far as the properties of its runs speak of it. `served` is a call
of the request handler with `m`, when the queue still held `left`, that leaves `replies` in
it. -/
inductive Action where
  | started (op : Operation)
  | completed (op : Operation)
  | failed (op : Operation)
  | served (m : Message) (left replies : List Message)
  | wrote (m : Message)
  | handledCompletion
  | shutdown
  deriving DecidableEq

/-- The eight bytes of `header_` on the wire, least significant first. -/
def headerBytes (header : Nat) : Bytes :=
  (List.range headerSize).map (fun i => UInt8.ofNat (header >>> (8 * i)))

/-- `connection`, and the socket, the timer and the shared world as it sees them. `sent` is
what its completed writes have put on the wire, `lines` what it has logged. `printing` is set once
a request is printed for ever. -/
structure Cycle where
  conn : Connection
  header_ : Nat
  msg_ : Message
  replies_ : MessageQueue
  user_ : User
  timedOut : Bool
  printing : Bool
  world : World
  pending : List Operation
  armed : Option Wait
  queued : List (Wait × WaitResult)
  reads : Nat
  sent : Bytes
  lines : List Bytes
  log : List Action
  halt : Option Halt

namespace Cycle

/-- Go on unless the process has stopped. -/
def andThen (s : Cycle) (k : Cycle → Cycle) : Cycle := if s.halt.isSome then s else k s

/-- The connection has done something. -/
def note (s : Cycle) (a : Action) : Cycle := { s with log := a :: s.log }

/-- An asynchronous operation of the socket begins. -/
def begin (s : Cycle) (op : Operation) : Cycle :=
  { s with pending := s.pending ++ [op], log := .started op :: s.log }

/-! ### The timer and the end of a connection -/

/-- `cancel` of the timer, also the first thing that `expires_after` does. -/
def cancel (s : Cycle) : Cycle :=
  match s.armed with
  | some wait => { s with armed := none, queued := s.queued ++ [(wait, .operationAborted)] }
  | none => s

/-- `connection::schedule_timeout`. -/
def scheduleTimeout (s : Cycle) : Cycle := { s.cancel with armed := some ⟨s.reads⟩ }

/-- `connection::shutdown`. -/
def shutdown (s : Cycle) : Cycle :=
  { s.cancel with
    world := s.world.eraseStream s.user_.id
    conn := s.conn.close
    lines := logMessage s.user_ (ascii "Shutdown") :: s.lines
    log := .shutdown :: s.log }

/-- The handler of a wait. -/
def timerHandler (s : Cycle) : WaitResult → Cycle
  | .success => { s with timedOut := true }.shutdown
  | .operationAborted => s
  | .otherError => s.scheduleTimeout

/-! ### Logging -/

/-- Log a result, or stop the process where the type has no name. -/
def logResult (s : Cycle) (msgType : UInt8) (messageResult connectionResult : ResultType) :
    Cycle :=
  match RemoteBackup.logResult s.user_ msgType messageResult connectionResult with
  | .ok line => { s with lines := line :: s.lines }
  | .error h => { s with halt := some h }

/-- `connection::log_read`. -/
def logRead (s : Cycle) : Cycle := s.logResult MsgType.none.toByte .none .err

/-- `connection::log_write`. `error` tells whether the error code is set. -/
def logWrite (s : Cycle) (error : Bool) : Cycle :=
  s.logResult s.replies_.msgType (if s.replies_.verifyError then .err else .ok)
    (if error then .err else .ok)

/-! ### The handlers of the socket -/

/-- `connection::read_request`, the handler of the handshake. -/
def readRequest (s : Cycle) (error : Bool) : Cycle :=
  if s.timedOut then s
  else if error then s.logRead.andThen shutdown
  else s.scheduleTimeout.begin .readHeader

/-- The handler of the read of a header. -/
def headerRead (s : Cycle) (error : Bool) : Cycle :=
  if s.timedOut then s
  else if error then s.logRead.andThen shutdown
  else s.scheduleTimeout.begin .readPayload

/-- `connection::handle_completion`. -/
def handleCompletion (s : Cycle) (error : Bool) : Cycle :=
  let s := s.note .handledCompletion
  if s.timedOut then s
  else (s.logWrite error).andThen fun s => if error then s.shutdown else s.readRequest false

/-- `connection::write_response`. `front()` of an empty queue is undefined. -/
def writeResponse (s : Cycle) (error : Bool) : Cycle :=
  if s.timedOut then s
  else if error then (s.logWrite true).andThen shutdown
  else
    match s.replies_.msgs with
    | [] => { s with halt := some .undefinedBehavior }
    | m :: _ => { s with header_ := m.size }.begin .writeHeader

/-- The handler of the write of a header. -/
def headerWritten (s : Cycle) (error : Bool) : Cycle :=
  if s.timedOut then s
  else if error then (s.logWrite true).andThen shutdown
  else
    match s.replies_.msgs with
    | [] => { s with halt := some .undefinedBehavior }
    | m :: rest =>
        { s with msg_ := m, replies_ := { s.replies_ with msgs := rest } }.begin
          (.writeMessage rest.isEmpty)

/-- The call of the request handler in `connection::handle_request`, and the start of the
answer. -/
def serve (env : Env) (s : Cycle) (m : Message) : Cycle :=
  let o := RemoteBackup.handleRequest env s.world s.user_ m
  match o.result with
  | .ok r =>
      { s with
        msg_ := m
        replies_ := r.replies
        user_ := o.user
        world := o.world
        log := .served m s.replies_.msgs r.replies.msgs :: s.log }.writeResponse false
  | .error h =>
      { s with
        msg_ := m
        user_ := o.user
        world := o.world
        log := .served m s.replies_.msgs [] :: s.log
        halt := some h }

/-- `connection::handle_request` from the print of the request on. -/
def print (env : Env) (s : Cycle) (m : Message) : Cycle :=
  match m.printed with
  | .error h => { s with msg_ := m, halt := some h }
  | .ok none => { s with msg_ := m, printing := true }
  | .ok (some _) => s.serve env m

/-- `connection::handle_request`, the handler of the read of a payload. -/
def handleRequest (env : Env) (allocates : Nat → Bool) (s : Cycle) (error : Bool) : Cycle :=
  if s.timedOut then s
  else if error then s.logRead.andThen shutdown
  else
    match s.conn.handleRequest allocates s.header_ with
    | (.message m, _) => s.cancel.print env m
    | (.shutdown, _) => s.cancel.shutdown
    | (.undefined, _) => { s.cancel with halt := some .undefinedBehavior }

/-! ### Events -/

/-- What can happen next: a pending operation completes, without an error or with one; the
deadline of the armed wait passes; the wait fails; a queued completion is delivered; or other
connections change the world. `allocates` is as in `Connection.handleRequest`. -/
inductive Event where
  | succeed (k : Nat) (allocates : Nat → Bool)
  | fail (k : Nat)
  | expire
  | timerFault
  | deliver (k : Nat)
  | elsewhere (w : World)

/-- `connection::start`. The memory of the flags and `ip` are as in `User.fresh`, and the
client sends `stream`. -/
def start (w : World) (isAuth isSynced : Bool) (ip stream : Bytes) : Cycle :=
  { conn := Connection.start stream
    header_ := 0
    msg_ := ⟨[]⟩
    replies_ := MessageQueue.ofType MsgType.none.toByte
    user_ := User.fresh isAuth isSynced ip
    timedOut := false
    printing := false
    world := w
    pending := []
    armed := none
    queued := []
    reads := 0
    sent := []
    lines := [logMessage (User.fresh isAuth isSynced ip) (ascii "Accepted connection")]
    log := []
    halt := none : Cycle }.scheduleTimeout.begin .handshake

/-- An operation, no longer pending, completes without an error. A read that lacks bytes does
not: it stays as it was, and `whole` is the state that is kept. -/
def succeeded (env : Env) (allocates : Nat → Bool) (s whole : Cycle) : Operation → Cycle
  | .handshake => (s.note (.completed .handshake)).readRequest false
  | .readHeader =>
      match asyncRead headerSize s.conn.stream with
      | none => whole
      | some (head, rest) =>
          ({ s with
            conn := { s.conn with stream := rest }
            header_ := headerOf head.1
            reads := s.reads + 1 }.note (.completed .readHeader)).headerRead false
  | .readPayload =>
      match asyncRead (min chunkSize s.header_) s.conn.stream with
      | none => whole
      | some (body, rest) =>
          ({ s with
            conn := s.conn.fill body.1 rest (body.2.trans_le (Nat.min_le_left _ _))
            reads := s.reads + 1 }.note (.completed .readPayload)).handleRequest env allocates false
  | .writeHeader =>
      ({ s with sent := s.sent ++ headerBytes s.header_ }.note
        (.completed .writeHeader)).headerWritten false
  | .writeMessage last =>
      let s := { s with sent := s.sent ++ s.msg_.raw }.note (.wrote s.msg_)
      if last then s.handleCompletion false else s.writeResponse false

/-- An operation, no longer pending, completes with an error. -/
def failed (env : Env) (s : Cycle) (op : Operation) : Cycle :=
  let s := s.note (.failed op)
  match op with
  | .handshake => s.readRequest true
  | .readHeader => s.headerRead true
  | .readPayload => s.handleRequest env (fun _ => true) true
  | .writeHeader => s.headerWritten true
  | .writeMessage last => if last then s.handleCompletion true else s.writeResponse true

/-- The armed wait completes, and its completion is queued. -/
def complete (s : Cycle) (r : WaitResult) : Cycle :=
  match s.armed with
  | some wait => { s with armed := none, queued := s.queued ++ [(wait, r)] }
  | none => s

/-- One event. An event that cannot happen changes nothing. -/
def step (env : Env) (s : Cycle) (e : Event) : Cycle :=
  if s.halt.isSome then s else
  match e with
  | .succeed k allocates =>
      match s.pending[k]? with
      | some op => { s with pending := s.pending.eraseIdx k }.succeeded env allocates s op
      | none => s
  | .fail k =>
      match s.pending[k]? with
      | some op => { s with pending := s.pending.eraseIdx k }.failed env op
      | none => s
  | .expire => s.complete .success
  | .timerFault => s.complete .otherError
  | .deliver k =>
      -- The strand is taken by a print that does not come back.
      if s.printing then s else
      match s.queued[k]? with
      | some (_, r) => { s with queued := s.queued.eraseIdx k }.timerHandler r
      | none => s
  | .elsewhere w => { s with world := w }

end Cycle

end RemoteBackup
