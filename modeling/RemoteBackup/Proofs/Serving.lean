import RemoteBackup.Core.Cycle
import RemoteBackup.Proofs.Replies

/-!
# `RemoteBackup.Proofs.Serving`: a connection serves one request at a time

`Trace` is the grammar of what a connection does: it reads a header and a payload, calls the
request handler, and writes the messages of the reply one by one. The `Stage` behind a log
says what comes next.

* `Phase`: the invariant. A connection is live and waits for one operation, which fits the
  stage of its log, or it is over and ignores what still completes.
* One lemma for each handler shows that it leads from a live connection to a `Phase`;
  `phase_step` puts them together for every event.
* `served_after_reads`, `served_after_writes`: what the grammar says about two calls of the
  request handler.
* `serves_one_at_a_time`: the runs.
-/

set_option autoImplicit false

namespace RemoteBackup.Proofs

open Lib

/-! ### The grammar of a log -/

/-- What a connection has to do next: to answer with these messages, and then to read a header;
to read a payload; or to call the request handler. -/
inductive Stage where
  | answering (q : List Message)
  | gotHeader
  | gotPayload
  deriving DecidableEq

/-- The actions that lead from one stage to another. -/
def isMark : Action → Bool
  | .completed .readHeader => true
  | .completed .readPayload => true
  | .served _ _ _ => true
  | .wrote _ => true
  | _ => false

/-- A call of the request handler. -/
def isServed : Action → Bool
  | .served _ _ _ => true
  | _ => false

/-- The logs of a connection, latest action first, with the stage that they lead to. -/
inductive Trace : List Action → Stage → Prop
  | nil : Trace [] (.answering [])
  | header {l : List Action} (h : Trace l (.answering [])) :
      Trace (.completed .readHeader :: l) .gotHeader
  | payload {l : List Action} (h : Trace l .gotHeader) :
      Trace (.completed .readPayload :: l) .gotPayload
  | served {l : List Action} (m : Message) {left : List Message} (q : List Message)
      (h : Trace l .gotPayload) (hleft : left = [] ∨ ∀ a ∈ l, isServed a = false) :
      Trace (.served m left q :: l) (.answering q)
  | wrote {l : List Action} {m : Message} {q : List Message} (h : Trace l (.answering (m :: q))) :
      Trace (.wrote m :: l) (.answering q)
  | other {l : List Action} {a : Action} {st : Stage} (h : Trace l st) (ha : isMark a = false) :
      Trace (a :: l) st

/-- The message that was written. -/
def wroteOf : Action → Option Message
  | .wrote m => some m
  | _ => none

/-- The messages written in a part of a log, earliest first. -/
def writtenIn (l : List Action) : List Message := (l.filterMap wroteOf).reverse

/-- The latest action comes last among what was written. -/
theorem writtenIn_cons (a : Action) (l : List Action) :
    writtenIn (a :: l) = writtenIn l ++ (wroteOf a).toList := by
  cases h : wroteOf a <;> simp [writtenIn, h]

/-- The past of a trace is a trace. -/
theorem Trace.of_append {l pre : List Action} {st : Stage} (h : Trace (l ++ pre) st) :
    ∃ st', Trace pre st' := by
  induction l generalizing st with
  | nil => exact ⟨st, h⟩
  | cons a l ih =>
      cases h with
      | header h => exact ih h
      | payload h => exact ih h
      | served m q h => exact ih h
      | wrote h => exact ih h
      | other h => exact ih h

/-- A connection that has a header has read it since the last call of the handler. -/
theorem Trace.header_read {l : List Action} (h : Trace l .gotHeader) :
    ∃ a pre, l = a ++ .completed .readHeader :: pre ∧ ∀ x ∈ a, isServed x = false := by
  generalize hst : Stage.gotHeader = st at h
  induction h with
  | nil | payload | served | wrote => cases hst
  | header h => exact ⟨[], _, rfl, by simp⟩
  | @other l x st h hx ih =>
      obtain ⟨a, pre, rfl, ha⟩ := ih hst
      refine ⟨x :: a, pre, rfl, List.forall_mem_cons.mpr ⟨?_, ha⟩⟩
      cases x <;> first | rfl | simp [isMark] at hx

/-- A connection that has a payload has read it, and its header before, since the last call of
the handler. -/
theorem Trace.payload_read {l : List Action} (h : Trace l .gotPayload) :
    ∃ a b pre, l = a ++ .completed .readPayload :: (b ++ .completed .readHeader :: pre) ∧
      (∀ x ∈ a, isServed x = false) ∧ ∀ x ∈ b, isServed x = false := by
  generalize hst : Stage.gotPayload = st at h
  induction h with
  | nil | header | served | wrote => cases hst
  | payload h =>
      obtain ⟨b, pre, rfl, hb⟩ := h.header_read
      exact ⟨[], b, pre, rfl, by simp, hb⟩
  | @other l x st h hx ih =>
      obtain ⟨a, b, pre, rfl, ha, hb⟩ := ih hst
      refine ⟨x :: a, b, pre, rfl, List.forall_mem_cons.mpr ⟨?_, ha⟩, hb⟩
      cases x <;> first | rfl | simp [isMark] at hx

/-- The messages still to be written at a stage. -/
def Stage.unwritten : Stage → List Message
  | .answering q => q
  | .gotHeader => []
  | .gotPayload => []

/-- Since the last call of the handler, the messages of its reply were written in their order,
but for those that the stage still has to write. Induction on the part of the log since
then. -/
theorem Trace.written {l pre : List Action} {m : Message} {left q : List Message} {st : Stage}
    (h : Trace (l ++ .served m left q :: pre) st) (hl : ∀ x ∈ l, isServed x = false) :
    writtenIn l ++ st.unwritten = q := by
  induction l generalizing st with
  | nil =>
      cases h with
      | served m q h => rfl
      | other h ha => exact absurd ha (by simp [isMark])
  | cons a l ih =>
      have hserved := hl a (by simp)
      replace ih : ∀ {st : Stage}, Trace (l ++ .served m left q :: pre) st →
          writtenIn l ++ st.unwritten = q := fun h => ih h fun x hx => hl x (by simp [hx])
      cases h with
      | header h => simpa [writtenIn_cons, wroteOf, Stage.unwritten] using ih h
      | payload h => simpa [writtenIn_cons, wroteOf, Stage.unwritten] using ih h
      | served m q h => exact absurd hserved (by simp [isServed])
      | wrote h => simpa [writtenIn_cons, wroteOf, Stage.unwritten] using ih h
      | other h ha =>
          have hnone : wroteOf a = none := by
            cases a <;> first | rfl | simp [isMark] at ha
          simpa [writtenIn_cons, hnone] using ih h

/-- The handler is called only after a header and a payload were read, both since the last
call. -/
theorem served_after_reads {l post pre : List Action} {m : Message} {left q : List Message}
    {st : Stage} (h : Trace l st) (hl : l = post ++ .served m left q :: pre) :
    ∃ a b c, pre = a ++ .completed .readPayload :: (b ++ .completed .readHeader :: c) ∧
      (∀ x ∈ a, isServed x = false) ∧ ∀ x ∈ b, isServed x = false := by
  subst hl
  obtain ⟨st', htrace⟩ := h.of_append
  cases htrace with
  | served m q h hleft => exact h.payload_read
  | other h ha => exact absurd ha (by simp [isMark])

/-- Between two calls of the handler, every message of the first call's reply was written
exactly once, in the order of the queue, and the second call finds the queue empty. -/
theorem served_after_writes {l post mid pre : List Action} {m m' : Message}
    {left left' q q' : List Message} {st : Stage} (h : Trace l st)
    (hl : l = post ++ .served m' left' q' :: (mid ++ .served m left q :: pre))
    (hmid : ∀ x ∈ mid, isServed x = false) : writtenIn mid = q ∧ left' = [] := by
  subst hl
  obtain ⟨st', htrace⟩ := h.of_append
  cases htrace with
  | served m' q' h hleft =>
      refine ⟨by simpa [Stage.unwritten] using h.written hmid, ?_⟩
      rcases hleft with hempty | hnone
      · exact hempty
      · exact absurd (hnone (.served m left q) (by simp)) (by simp [isServed])
  | other h ha => exact absurd ha (by simp [isMark])

/-! ### After the end of a connection -/

/-- The calls of the request handler and the starts of operations. -/
def works : Action → Bool
  | .started _ => true
  | .served _ _ _ => true
  | _ => false

/-- No work follows a shutdown. -/
def Quiet : List Action → Prop
  | [] => True
  | a :: l => (.shutdown ∈ l → works a = false) ∧ Quiet l

/-- A connection that was not shut down has done nothing behind a shutdown. -/
theorem quiet_of_not_mem {l : List Action} (h : Action.shutdown ∉ l) : Quiet l := by
  induction l with
  | nil => trivial
  | cons a l ih =>
      rw [List.mem_cons, not_or] at h
      exact ⟨fun hl => absurd hl h.2, ih h.2⟩

/-- Behind a shutdown no operation is begun and no request served. -/
theorem Quiet.not_works {post pre : List Action} (h : Quiet (post ++ .shutdown :: pre)) :
    ∀ a ∈ post, works a = false := by
  induction post with
  | nil => simp
  | cons x post ih => exact List.forall_mem_cons.mpr ⟨h.1 (by simp), ih h.2⟩

/-! ### The invariant -/

/-- The queue is empty, or no request was served yet. -/
def Emptied (s : Cycle) : Prop := s.replies_.msgs = [] ∨ ∀ a ∈ s.log, isServed a = false

/-- A pending operation fits the stage of the log and the queue of the connection. -/
def Awaits (s : Cycle) : Operation → Stage → Prop
  | .handshake, .answering q => q = [] ∧ Emptied s
  | .readHeader, .answering q => q = [] ∧ Emptied s
  | .readPayload, .gotHeader => Emptied s
  | .writeHeader, .answering q => q ≠ [] ∧ s.replies_.msgs = q
  | .writeMessage last, .answering q => q = s.msg_ :: s.replies_.msgs ∧
      last = s.replies_.msgs.isEmpty
  | _, _ => False

/-- What can end the work of a connection: nothing is left to write, it was timed out, or an
operation has failed. -/
def Ends (s : Cycle) (st : Stage) : Prop :=
  st.unwritten = [] ∨ s.timedOut = true ∨ ∃ op, .failed op ∈ s.log

/-- One more action behind the end. -/
theorem Ends.cons {s : Cycle} {st : Stage} (h : Ends s st) {a : Action} :
    Ends { s with log := a :: s.log } st := by
  rcases h with hst | htimed | ⟨op, hop⟩
  · exact Or.inl hst
  · exact Or.inr (Or.inl htimed)
  · exact Or.inr (Or.inr ⟨op, List.mem_cons_of_mem a hop⟩)

/-- The phases of a connection: it waits for one operation, or for none. It is open until it is
timed out. -/
inductive Phase (s : Cycle) : Prop
  | waiting (op : Operation) (st : Stage) (hpending : s.pending = [op]) (hhalt : s.halt = none)
      (htrace : Trace s.log st) (hawaits : Awaits s op st) (hquiet : Quiet s.log)
      (hopen : s.timedOut = false → Action.shutdown ∉ s.log)
  | ended (st : Stage) (hpending : s.pending = []) (htrace : Trace s.log st)
      (hquiet : Quiet s.log) (hends : Ends s st)

/-- At most one operation of the socket is pending. -/
theorem Phase.onePending {s : Cycle} (h : Phase s) : s.pending.length ≤ 1 := by
  cases h with
  | waiting op st hpending => simp [hpending]
  | ended st hpending => simp [hpending]

/-- What the connection has done is in the order of the protocol. -/
theorem Phase.trace {s : Cycle} (h : Phase s) : ∃ st, Trace s.log st := by
  cases h with
  | waiting op st hpending hhalt htrace => exact ⟨st, htrace⟩
  | ended st hpending htrace => exact ⟨st, htrace⟩

/-- A connection that was shut down does no more work. -/
theorem Phase.quiet {s : Cycle} (h : Phase s) : Quiet s.log := by
  cases h with
  | waiting op st hpending hhalt htrace hawaits hquiet => exact hquiet
  | ended st hpending htrace hquiet => exact hquiet

/-- A connection whose operation has just completed. -/
structure Done (s : Cycle) (st : Stage) : Prop where
  halt : s.halt = none
  pending : s.pending = []
  trace : Trace s.log st
  quiet : Quiet s.log
  isOpen : s.timedOut = false → Action.shutdown ∉ s.log

/-- The same of a connection that goes on. -/
structure Ready (s : Cycle) (st : Stage) : Prop where
  halt : s.halt = none
  timedOut : s.timedOut = false
  pending : s.pending = []
  trace : Trace s.log st
  isOpen : Action.shutdown ∉ s.log

/-- A connection that is ready has finished what it had begun. -/
theorem Ready.done {s : Cycle} {st : Stage} (h : Ready s st) : Done s st :=
  ⟨h.halt, h.pending, h.trace, quiet_of_not_mem h.isOpen, fun _ => h.isOpen⟩

/-- Every handler does nothing once the connection was timed out. -/
theorem Done.unless {s s' : Cycle} {st : Stage} (h : Done s st) (hk : Ready s st → Phase s') :
    Phase (if s.timedOut then s else s') := by
  cases htimed : s.timedOut with
  | true => exact .ended st h.pending h.trace h.quiet (Or.inr (Or.inl htimed))
  | false => exact hk ⟨h.halt, htimed, h.pending, h.trace, h.isOpen htimed⟩

/-! ### What the helpers of the handlers change -/

/-- `cancel` changes nothing but the timer. -/
theorem cancel_eq (s : Cycle) : ∃ armed queued,
    s.cancel = { s with armed := armed, queued := queued } := by
  unfold Cycle.cancel
  split <;> exact ⟨_, _, rfl⟩

/-- Arming the timer changes nothing else. -/
theorem scheduleTimeout_eq (s : Cycle) : ∃ armed queued,
    s.scheduleTimeout = { s with armed := armed, queued := queued } := by
  obtain ⟨armed, queued, h⟩ := cancel_eq s
  rw [Cycle.scheduleTimeout, h]
  exact ⟨_, _, rfl⟩

/-- `shutdown` changes the timer, the world, the socket and the log, and nothing of the protocol. -/
theorem shutdown_eq (s : Cycle) : ∃ armed queued world conn lines, s.shutdown =
    { s with
      armed := armed
      queued := queued
      world := world
      conn := conn
      lines := lines
      log := .shutdown :: s.log } := by
  obtain ⟨armed, queued, h⟩ := cancel_eq s
  rw [Cycle.shutdown, h]
  exact ⟨_, _, _, _, _, rfl⟩

/-- Logging adds a line or stops the process. -/
theorem logResult_eq (s : Cycle) (t : UInt8) (mr cr : ResultType) :
    (∃ lines, s.logResult t mr cr = { s with lines := lines }) ∨
      s.logResult t mr cr = { s with halt := some .undefinedBehavior } := by
  unfold Cycle.logResult RemoteBackup.logResult
  cases msgTypeStrMap.lookup t with
  | some str => exact Or.inl ⟨_, rfl⟩
  | none => exact Or.inr rfl

/-- `cancel` keeps a connection ready. -/
theorem Ready.cancel {s : Cycle} {st : Stage} (h : Ready s st) : Ready s.cancel st := by
  obtain ⟨armed, queued, heq⟩ := cancel_eq s
  rw [heq]
  exact ⟨h.halt, h.timedOut, h.pending, h.trace, h.isOpen⟩

/-- Arming the timer keeps a connection ready. -/
theorem Ready.scheduleTimeout {s : Cycle} {st : Stage} (h : Ready s st) :
    Ready s.scheduleTimeout st := by
  obtain ⟨armed, queued, heq⟩ := scheduleTimeout_eq s
  rw [heq]
  exact ⟨h.halt, h.timedOut, h.pending, h.trace, h.isOpen⟩

/-- A note that is no mark leaves the stage. -/
theorem Done.note {s : Cycle} {st : Stage} (h : Done s st) {a : Action}
    (ha : isMark a = false) (hne : a ≠ .shutdown) (hworks : works a = false) :
    Done (s.note a) st where
  halt := h.halt
  pending := h.pending
  trace := .other h.trace ha
  quiet := ⟨fun _ => hworks, h.quiet⟩
  isOpen := fun htimed => by
    rw [Cycle.note, List.mem_cons, not_or]
    exact ⟨hne.symm, h.isOpen htimed⟩

/-- A connection without a pending operation is over after its shutdown. -/
theorem Ready.shutdown {s : Cycle} {st : Stage} (h : Ready s st) (hends : Ends s st) :
    Phase s.shutdown := by
  obtain ⟨armed, queued, world, conn, lines, heq⟩ := shutdown_eq s
  rw [heq]
  exact .ended st h.pending (.other h.trace rfl) ⟨fun _ => rfl, quiet_of_not_mem h.isOpen⟩
    (hends.cons (a := .shutdown))

/-- Where the process stops, no operation is pending. -/
theorem Ready.halted {s : Cycle} {st : Stage} (h : Ready s st) (hends : Ends s st) (e : Halt) :
    Phase { s with halt := some e } :=
  .ended st h.pending h.trace (quiet_of_not_mem h.isOpen) hends

/-- Logging a result is followed by what comes after it, or stops the process. -/
theorem Ready.logResult {s : Cycle} {st : Stage} (h : Ready s st) (hends : Ends s st) (t : UInt8)
    (mr cr : ResultType) {k : Cycle → Cycle}
    (hk : ∀ lines, Phase (k { s with lines := lines })) :
    Phase ((s.logResult t mr cr).andThen k) := by
  rcases logResult_eq s t mr cr with ⟨lines, heq⟩ | heq
  · rw [heq, Cycle.andThen, if_neg (by simp [h.halt])]
    exact hk lines
  · rw [heq]
    exact h.halted hends .undefinedBehavior

/-- Lines of the log are no part of the protocol. -/
theorem Ready.withLines {s : Cycle} {st : Stage} (h : Ready s st) (lines : List Bytes) :
    Ready { s with lines := lines } st :=
  ⟨h.halt, h.timedOut, h.pending, h.trace, h.isOpen⟩

/-- A failed read is logged and the connection shuts down. -/
theorem Ready.logRead {s : Cycle} {st : Stage} (h : Ready s st) (hends : Ends s st) :
    Phase (s.logRead.andThen Cycle.shutdown) :=
  h.logResult hends _ _ _ fun lines => (h.withLines lines).shutdown hends

/-- A failed write is logged and the connection shuts down. -/
theorem Ready.logWrite {s : Cycle} {st : Stage} (h : Ready s st) (hends : Ends s st) :
    Phase ((s.logWrite true).andThen Cycle.shutdown) :=
  h.logResult hends _ _ _ fun lines => (h.withLines lines).shutdown hends

/-- An operation that fits begins. -/
theorem Ready.begin {s : Cycle} {st : Stage} (h : Ready s st) (op : Operation)
    (hawaits : Awaits (s.begin op) op st) : Phase (s.begin op) := by
  have hopen : Action.shutdown ∉ (s.begin op).log := by
    rw [Cycle.begin, List.mem_cons, not_or]
    exact ⟨by simp, h.isOpen⟩
  refine .waiting op st ?_ h.halt (.other h.trace rfl) hawaits (quiet_of_not_mem hopen)
    fun _ => hopen
  rw [Cycle.begin, h.pending]
  rfl

/-! ### The handlers -/

/-- An action that serves no request leaves the queue as it was. -/
theorem Emptied.cons {s s' : Cycle} (h : Emptied s) {a : Action} (ha : isServed a = false)
    (hlog : s'.log = a :: s.log) (hreplies : s'.replies_ = s.replies_) : Emptied s' := by
  rcases h with hempty | hnone
  · exact Or.inl (by rw [hreplies, hempty])
  · exact Or.inr (by rw [hlog]; exact List.forall_mem_cons.mpr ⟨ha, hnone⟩)

/-- Arming the timer leaves the queue as it was. -/
theorem Emptied.scheduled {s : Cycle} (h : Emptied s) : Emptied s.scheduleTimeout := by
  obtain ⟨armed, queued, heq⟩ := scheduleTimeout_eq s
  rw [heq]
  exact h

/-- Behind a reply that was written in full the next header is read. -/
theorem Done.readRequest {s : Cycle} (h : Done s (.answering [])) (hempty : Emptied s)
    (error : Bool) : Phase (s.readRequest error) := by
  refine h.unless fun h => ?_
  cases error with
  | true => exact h.logRead (Or.inl rfl)
  | false => exact h.scheduleTimeout.begin .readHeader ⟨rfl, hempty.scheduled.cons rfl rfl rfl⟩

/-- Behind a header its payload is read. -/
theorem Done.headerRead {s : Cycle} (h : Done s .gotHeader) (hempty : Emptied s) :
    Phase (s.headerRead false) :=
  h.unless fun h => h.scheduleTimeout.begin .readPayload (hempty.scheduled.cons rfl rfl rfl)

/-- A header that cannot be read ends the connection. -/
theorem Done.headerRead_error {s : Cycle} {st : Stage} (h : Done s st) (hends : Ends s st) :
    Phase (s.headerRead true) :=
  h.unless fun h => h.logRead hends

/-- The answer begins with a message of the queue. -/
theorem Done.writeResponse {s : Cycle} {q : List Message} (h : Done s (.answering q))
    (hq : s.replies_.msgs = q) (hne : q ≠ []) : Phase (s.writeResponse false) := by
  refine h.unless fun h => ?_
  obtain ⟨m, rest, rfl⟩ := List.exists_cons_of_ne_nil hne
  simp only [Bool.false_eq_true, if_false, hq]
  have hready : Ready { s with header_ := m.size } (.answering (m :: rest)) :=
    ⟨h.halt, h.timedOut, h.pending, h.trace, h.isOpen⟩
  exact hready.begin .writeHeader ⟨hne, hq⟩

/-- A message that cannot be written ends the connection. -/
theorem Done.writeResponse_error {s : Cycle} {st : Stage} (h : Done s st) (hends : Ends s st) :
    Phase (s.writeResponse true) :=
  h.unless fun h => h.logWrite hends

/-- The message whose header was written is taken from the queue. -/
theorem Done.headerWritten {s : Cycle} {q : List Message} (h : Done s (.answering q))
    (hq : s.replies_.msgs = q) (hne : q ≠ []) : Phase (s.headerWritten false) := by
  refine h.unless fun h => ?_
  obtain ⟨m, rest, rfl⟩ := List.exists_cons_of_ne_nil hne
  simp only [Bool.false_eq_true, if_false, hq]
  have hready : Ready { s with msg_ := m, replies_ := { s.replies_ with msgs := rest } }
      (.answering (m :: rest)) := ⟨h.halt, h.timedOut, h.pending, h.trace, h.isOpen⟩
  exact hready.begin (.writeMessage rest.isEmpty) ⟨rfl, rfl⟩

/-- A header that cannot be written ends the connection. -/
theorem Done.headerWritten_error {s : Cycle} {st : Stage} (h : Done s st) (hends : Ends s st) :
    Phase (s.headerWritten true) :=
  h.unless fun h => h.logWrite hends

/-- Behind the last write the reply is complete, and the next header is read. -/
theorem Done.handleCompletion {s : Cycle} (h : Done s (.answering []))
    (hq : s.replies_.msgs = []) : Phase (s.handleCompletion false) := by
  refine (h.note (a := .handledCompletion) rfl (by simp) rfl).unless fun h => ?_
  exact h.logResult (Or.inl rfl) _ _ _ fun lines =>
    (h.withLines lines).done.readRequest (Or.inl hq) false

/-- A write that fails ends the connection. -/
theorem Done.handleCompletion_error {s : Cycle} {st : Stage} (h : Done s st) (hends : Ends s st) :
    Phase (s.handleCompletion true) := by
  refine (h.note (a := .handledCompletion) rfl (by simp) rfl).unless fun h => ?_
  have hends' : Ends (s.note .handledCompletion) st := hends.cons
  exact h.logResult hends' _ _ _ fun lines => (h.withLines lines).shutdown hends'

/-- The call of the request handler, and the start of the answer: every reply has a message. -/
theorem Ready.serve {env : Env} {s : Cycle} (h : Ready s .gotPayload) (hempty : Emptied s)
    (m : Message) : Phase (s.serve env m) := by
  have hopen : ∀ q, Action.shutdown ∉ .served m s.replies_.msgs q :: s.log := by
    intro q
    rw [List.mem_cons, not_or]
    exact ⟨by simp, h.isOpen⟩
  unfold Cycle.serve
  dsimp only
  cases hresult : (handleRequest env s.world s.user_ m).result with
  | error e =>
      exact .ended _ h.pending (.served m [] h.trace hempty) (quiet_of_not_mem (hopen []))
        (Or.inl rfl)
  | ok r =>
      rw [handleRequest_eq_perform] at hresult
      obtain ⟨msgType, htype⟩ := msgType_of_answered hresult
      obtain ⟨items, hshaped, -⟩ := perform_shaped htype hresult
      refine Done.writeResponse (q := r.replies.msgs) (Ready.done ?_) rfl hshaped.ne_nil
      exact ⟨h.halt, h.timedOut, h.pending, .served m _ h.trace hempty, hopen _⟩

/-- The print comes back, or nothing of the connection is left to happen. -/
theorem Ready.print {env : Env} {s : Cycle} (h : Ready s .gotPayload) (hempty : Emptied s)
    (m : Message) : Phase (s.print env m) := by
  have hquiet := quiet_of_not_mem h.isOpen
  unfold Cycle.print
  split
  · exact .ended _ h.pending h.trace hquiet (Or.inl rfl)
  · exact .ended _ h.pending h.trace hquiet (Or.inl rfl)
  · exact h.serve hempty m

/-- The handler of the read of a payload. -/
theorem Done.handleRequest {env : Env} {allocates : Nat → Bool} {s : Cycle}
    (h : Done s .gotPayload) (hempty : Emptied s) :
    Phase (s.handleRequest env allocates false) := by
  refine h.unless fun h => ?_
  simp only [Bool.false_eq_true, if_false]
  have hempty' : Emptied s.cancel := by
    obtain ⟨armed, queued, heq⟩ := cancel_eq s
    rw [heq]
    exact hempty
  split
  · exact h.cancel.print hempty' _
  · exact h.cancel.shutdown (Or.inl rfl)
  · exact h.cancel.halted (Or.inl rfl) _

/-- A payload that cannot be read ends the connection. -/
theorem Done.handleRequest_error {env : Env} {allocates : Nat → Bool} {s : Cycle} {st : Stage}
    (h : Done s st) (hends : Ends s st) : Phase (s.handleRequest env allocates true) :=
  h.unless fun h => h.logRead hends

/-! ### Events -/

/-- A pending operation completes without an error: the connection has what its handler
needs. -/
theorem phase_succeeded {env : Env} {allocates : Nat → Bool} {s : Cycle} {op : Operation}
    {st : Stage} (hhalt : s.halt = none) (hpending : s.pending = [op]) (htrace : Trace s.log st)
    (hawaits : Awaits s op st) (hquiet : Quiet s.log)
    (hopen : s.timedOut = false → Action.shutdown ∉ s.log) :
    Phase ({ s with pending := [] }.succeeded env allocates s op) := by
  have hwhole : Phase s := .waiting op st hpending hhalt htrace hawaits hquiet hopen
  -- What a handler starts from, after it was noted that the operation has completed.
  have hmark : ∀ (a : Action), a ≠ .shutdown → works a = false →
      Quiet (a :: s.log) ∧ (s.timedOut = false → Action.shutdown ∉ a :: s.log) := by
    intro a hne hworks
    refine ⟨⟨fun _ => hworks, hquiet⟩, fun htimed => ?_⟩
    rw [List.mem_cons, not_or]
    exact ⟨hne.symm, hopen htimed⟩
  cases op with
  | handshake =>
      cases st with
      | gotHeader | gotPayload => exact hawaits.elim
      | answering q =>
          obtain ⟨rfl, hempty⟩ := hawaits
          obtain ⟨hquiet', hopen'⟩ := hmark (.completed .handshake) (by simp) rfl
          have hdone : Done ({ s with pending := [] }.note (.completed .handshake))
              (.answering []) := ⟨hhalt, rfl, .other htrace rfl, hquiet', hopen'⟩
          exact hdone.readRequest (hempty.cons rfl rfl rfl) false
  | readHeader =>
      cases st with
      | gotHeader | gotPayload => exact hawaits.elim
      | answering q =>
          obtain ⟨rfl, hempty⟩ := hawaits
          obtain ⟨hquiet', hopen'⟩ := hmark (.completed .readHeader) (by simp) rfl
          unfold Cycle.succeeded
          dsimp only
          split
          · exact hwhole
          · refine Done.headerRead ?_ (hempty.cons rfl rfl rfl)
            exact ⟨hhalt, rfl, .header htrace, hquiet', hopen'⟩
  | readPayload =>
      cases st with
      | answering q | gotPayload => exact hawaits.elim
      | gotHeader =>
          obtain ⟨hquiet', hopen'⟩ := hmark (.completed .readPayload) (by simp) rfl
          unfold Cycle.succeeded
          dsimp only
          split
          · exact hwhole
          · refine Done.handleRequest ?_ (hawaits.cons rfl rfl rfl)
            exact ⟨hhalt, rfl, .payload htrace, hquiet', hopen'⟩
  | writeHeader =>
      cases st with
      | gotHeader | gotPayload => exact hawaits.elim
      | answering q =>
          obtain ⟨hne, hq⟩ := hawaits
          obtain ⟨hquiet', hopen'⟩ := hmark (.completed .writeHeader) (by simp) rfl
          refine Done.headerWritten ?_ hq hne
          exact ⟨hhalt, rfl, .other htrace rfl, hquiet', hopen'⟩
  | writeMessage last =>
      cases st with
      | gotHeader | gotPayload => exact hawaits.elim
      | answering q =>
          obtain ⟨rfl, rfl⟩ := hawaits
          obtain ⟨hquiet', hopen'⟩ := hmark (.wrote s.msg_) (by simp) rfl
          unfold Cycle.succeeded
          dsimp only
          split
          · rename_i hlast
            have hnil : s.replies_.msgs = [] := List.isEmpty_iff.mp hlast
            refine Done.handleCompletion ?_ hnil
            exact ⟨hhalt, rfl, .wrote (hnil ▸ htrace), hquiet', hopen'⟩
          · rename_i hlast
            refine Done.writeResponse ?_ rfl fun hnil => hlast (List.isEmpty_iff.mpr hnil)
            exact ⟨hhalt, rfl, .wrote htrace, hquiet', hopen'⟩

/-- A pending operation that completes with an error is the last one. -/
theorem phase_failed {env : Env} {s : Cycle} {op : Operation} {st : Stage} (h : Done s st)
    (hawaits : Awaits s op st) : Phase (s.failed env op) := by
  have hdone := h.note (a := .failed op) rfl (by simp) rfl
  have hends : Ends (s.note (.failed op)) st := Or.inr (Or.inr ⟨op, List.mem_cons_self⟩)
  cases op with
  | handshake =>
      cases st with
      | gotHeader | gotPayload => exact hawaits.elim
      | answering q =>
          obtain ⟨rfl, hempty⟩ := hawaits
          exact hdone.readRequest (hempty.cons rfl rfl rfl) true
  | readHeader => exact hdone.headerRead_error hends
  | readPayload => exact hdone.handleRequest_error hends
  | writeHeader => exact hdone.headerWritten_error hends
  | writeMessage last =>
      unfold Cycle.failed
      dsimp only
      split
      · exact hdone.handleCompletion_error hends
      · exact hdone.writeResponse_error hends

/-- The timer and the world are not part of a phase. -/
theorem Phase.withTimer {s : Cycle} (h : Phase s) (armed : Option Wait)
    (queued : List (Wait × WaitResult)) (world : World) :
    Phase { s with armed := armed, queued := queued, world := world } := by
  cases h with
  | waiting op st hpending hhalt htrace hawaits hquiet hopen =>
      exact .waiting op st hpending hhalt htrace hawaits hquiet hopen
  | ended st hpending htrace hquiet hends => exact .ended st hpending htrace hquiet hends

/-- A wait whose deadline has passed ends the connection. -/
theorem Phase.timeOut {s : Cycle} (h : Phase s) : Phase { s with timedOut := true }.shutdown := by
  obtain ⟨armed, queued, world, conn, lines, heq⟩ := shutdown_eq { s with timedOut := true }
  rw [heq]
  cases h with
  | waiting op st hpending hhalt htrace hawaits hquiet hopen =>
      refine .waiting op st hpending hhalt (.other htrace rfl) ?_ ⟨fun _ => rfl, hquiet⟩ (by simp)
      cases op <;> cases st <;> try exact hawaits.elim
      · exact ⟨hawaits.1, hawaits.2.cons rfl rfl rfl⟩
      · exact ⟨hawaits.1, hawaits.2.cons rfl rfl rfl⟩
      · exact hawaits.cons rfl rfl rfl
      · exact hawaits
      · exact hawaits
  | ended st hpending htrace hquiet =>
      exact .ended st hpending (.other htrace rfl) ⟨fun _ => rfl, hquiet⟩ (Or.inr (Or.inl rfl))

/-- Every event leads from a phase to a phase. -/
theorem phase_step (env : Env) (s : Cycle) (e : Cycle.Event) (h : Phase s) :
    Phase (Cycle.step env s e) := by
  unfold Cycle.step
  split
  · exact h
  rename_i hhalt
  replace hhalt : s.halt = none := by simpa using hhalt
  cases e with
  | succeed k allocates =>
      cases h with
      | ended st hpending htrace hquiet hends =>
          simpa [hpending] using Phase.ended st hpending htrace hquiet hends
      | waiting op st hpending _ htrace hawaits hquiet hopen =>
          -- One operation is pending, so the first is the only one that can complete.
          cases k with
          | zero =>
              have hstep := @phase_succeeded env allocates s op st hhalt hpending htrace hawaits
                hquiet hopen
              simpa [hpending] using hstep
          | succ k =>
              simpa [hpending] using Phase.waiting op st hpending hhalt htrace hawaits hquiet hopen
  | fail k =>
      cases h with
      | ended st hpending htrace hquiet hends =>
          simpa [hpending] using Phase.ended st hpending htrace hquiet hends
      | waiting op st hpending _ htrace hawaits hquiet hopen =>
          cases k with
          | zero =>
              have hdone : Done { s with pending := [] } st :=
                ⟨hhalt, rfl, htrace, hquiet, hopen⟩
              have hstep := @phase_failed env _ op st hdone (by cases op <;> exact hawaits)
              simpa [hpending] using hstep
          | succ k =>
              simpa [hpending] using Phase.waiting op st hpending hhalt htrace hawaits hquiet hopen
  | expire =>
      simp only [Cycle.complete]
      split
      · exact h.withTimer _ _ s.world
      · exact h
  | timerFault =>
      simp only [Cycle.complete]
      split
      · exact h.withTimer _ _ s.world
      · exact h
  | deliver k =>
      dsimp only
      split
      · exact h
      split
      · rename_i wait r hwait
        have hrest := h.withTimer s.armed (s.queued.eraseIdx k) s.world
        cases r with
        | success => exact hrest.timeOut
        | operationAborted => exact hrest
        | otherError =>
            obtain ⟨armed, queued, heq⟩ := scheduleTimeout_eq
              { s with queued := s.queued.eraseIdx k }
            simp only [Cycle.timerHandler, heq]
            exact h.withTimer armed queued s.world
      · exact h
  | elsewhere w => exact h.withTimer s.armed s.queued w

/-- A connection begins with its handshake. -/
theorem phase_start (w : World) (isAuth isSynced : Bool) (ip stream : Bytes) :
    Phase (Cycle.start w isAuth isSynced ip stream) := by
  have hopen : Action.shutdown ∉ (Cycle.start w isAuth isSynced ip stream).log := by
    show Action.shutdown ∉ [Action.started .handshake]
    simp
  exact .waiting .handshake (.answering []) rfl rfl (.other .nil rfl)
    ⟨rfl, Or.inr (List.forall_mem_singleton.mpr rfl)⟩ (quiet_of_not_mem hopen) fun _ => hopen

/-- A connection serves one request at a time and stops for good, in every order of
completions and expiries. At most one operation is pending. The request handler is called only
after a header and a payload were read, since its last call. When it is called again, the
messages of its last reply were written, each once and in order, and the queue is empty. After
a shutdown it is not called, and no operation begins. -/
theorem serves_one_at_a_time (env : Env) (w : World) (isAuth isSynced : Bool) (ip stream : Bytes)
    (es : List Cycle.Event) (s : Cycle)
    (hs : s = run (Cycle.step env) (Cycle.start w isAuth isSynced ip stream) es) :
    s.pending.length ≤ 1 ∧
    (∀ post m left q pre, s.log = post ++ .served m left q :: pre →
      ∃ a b c, pre = a ++ .completed .readPayload :: (b ++ .completed .readHeader :: c) ∧
        (∀ x ∈ a, isServed x = false) ∧ ∀ x ∈ b, isServed x = false) ∧
    (∀ post m' left' q' mid m left q pre,
      s.log = post ++ .served m' left' q' :: (mid ++ .served m left q :: pre) →
      (∀ x ∈ mid, isServed x = false) → writtenIn mid = q ∧ left' = []) ∧
    ∀ post pre, s.log = post ++ .shutdown :: pre → ∀ a ∈ post, works a = false := by
  have hphase : Phase s := by
    rw [hs]
    exact (invariant_always (phase_start w isAuth isSynced ip stream) (phase_step env) es).1
  obtain ⟨st, htrace⟩ := hphase.trace
  refine ⟨hphase.onePending, ?_, ?_, ?_⟩
  · intro post m left q pre hlog
    exact served_after_reads htrace hlog
  · intro post m' left' q' mid m left q pre hlog hmid
    exact served_after_writes htrace hlog hmid
  · intro post pre hlog
    exact (hlog ▸ hphase.quiet).not_works

/-- A message behind its header. -/
def frame (m : Message) : Bytes := headerBytes m.size ++ m.raw

/-- A KEEP_ALIVE, and the reply to it before an AUTH. -/
def keepAlive : Message := encode MsgType.keepAlive.toByte [(TlvType.end_.toByte, [])]

/-- The reply to a KEEP_ALIVE that comes before the login. -/
def keepAliveRejected : Message :=
  encode MsgType.keepAlive.toByte [(TlvType.error.toByte, ascii "2"), (TlvType.end_.toByte, [])]

/-- A client sends two KEEP_ALIVEs, and the first seven operations of its connection succeed. -/
def twoKeepAlives : Cycle :=
  run (Cycle.step (Env.ofTables [] none [] []))
    (Cycle.start (World.ofDisk Disk.empty) false false [] (frame keepAlive ++ frame keepAlive))
    (List.replicate 7 (.succeed 0 fun _ => true))

/-- The reply to the first one is written when the second one is served. -/
theorem serves_one_at_a_time_keepAlive :
    twoKeepAlives.pending.length ≤ 1 ∧
      writtenIn [.completed .readPayload, .started .readPayload, .completed .readHeader,
        .started .readHeader, .handledCompletion, .wrote keepAliveRejected,
        .started (.writeMessage true), .completed .writeHeader, .started .writeHeader] =
          [keepAliveRejected] := by
  obtain ⟨hone, -, hwritten, -⟩ := serves_one_at_a_time (Env.ofTables [] none [] [])
    (World.ofDisk Disk.empty) false false [] (frame keepAlive ++ frame keepAlive) _ twoKeepAlives
    rfl
  refine ⟨hone, (hwritten [.started .writeHeader] keepAlive [] [keepAliveRejected] _ keepAlive
    [Message.ofType MsgType.none.toByte] [keepAliveRejected]
    [.completed .readPayload, .started .readPayload, .completed .readHeader,
      .started .readHeader, .completed .handshake, .started .handshake]
    (by decide +kernel) (by decide)).1⟩

end RemoteBackup.Proofs
