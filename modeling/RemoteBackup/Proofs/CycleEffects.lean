import RemoteBackup.Proofs.Serving

/-!
# `RemoteBackup.Proofs.CycleEffects`: what an event of a connection does to the server

Most events of a connection move bytes and arm its timer. Only two kinds of them reach the world
and the session: the request handler is called, or the connection shuts down.

* `Effect`: the three kinds of events, with what they do.
* One lemma for each handler of the socket; `cycle_effect` puts them together for every event.
-/

set_option autoImplicit false

namespace RemoteBackup.Proofs

open Lib

/-- The connection was not shut down. -/
def IsOpen (s : Cycle) : Prop := Action.shutdown ∉ s.log

/-- Whether a connection is open is read off its log. -/
instance (s : Cycle) : Decidable (IsOpen s) := inferInstanceAs (Decidable (_ ∉ _))

/-- The messages of an answer, none where the process has stopped instead. -/
def messagesOf : Except Halt Reply → List Message
  | .ok r => r.replies.msgs
  | .error _ => []

/-- The request and the reply of a call of the request handler. -/
def exchangeOf : Action → Option (Message × List Message)
  | .served m _ replies => some (m, replies)
  | _ => none

/-- The requests that the handler was called with and their replies, earliest first. -/
def exchangesIn (log : List Action) : List (Message × List Message) :=
  (log.filterMap exchangeOf).reverse

/-- The latest exchange comes last. -/
theorem exchangesIn_cons (a : Action) (log : List Action) :
    exchangesIn (a :: log) = exchangesIn log ++ (exchangeOf a).toList := by
  cases h : exchangeOf a <;> simp [exchangesIn, h]

/-- Nothing has happened that the world, the session or another connection could tell. -/
structure Same (s s' : Cycle) : Prop where
  world : s'.world = s.world
  user : s'.user_ = s.user_
  isOpen : IsOpen s' ↔ IsOpen s
  served : exchangesIn s'.log = exchangesIn s.log

/-- The kinds of events. -/
inductive Effect (env : Env) (s s' : Cycle) : Prop
  | silent (hsame : Same s s')
  | closed (hworld : s'.world = s.world.eraseStream s.user_.id) (huser : s'.user_ = s.user_)
      (hclosed : ¬ IsOpen s') (hserved : exchangesIn s'.log = exchangesIn s.log)
      (hhalt : s'.halt = none)
  | served (m : Message) (hopen : IsOpen s) (hopen' : IsOpen s')
      (hworld : s'.world = (handleRequest env s.world s.user_ m).world)
      (huser : s'.user_ = (handleRequest env s.world s.user_ m).user)
      (hserved : exchangesIn s'.log =
        exchangesIn s.log ++ [(m, messagesOf (handleRequest env s.world s.user_ m).result)])
      (hhalt : s'.halt =
        match (handleRequest env s.world s.user_ m).result with
        | .ok _ => none
        | .error h => some h)

variable {env : Env} {s s' s'' : Cycle}

/-! ### Silent parts -/

/-- Nothing has happened. -/
theorem Same.refl (s : Cycle) : Same s s := ⟨rfl, rfl, Iff.rfl, rfl⟩

/-- Two steps that show nothing to the server show nothing together. -/
theorem Same.trans (h : Same s s') (h' : Same s' s'') : Same s s'' :=
  ⟨h'.world.trans h.world, h'.user.trans h.user, h'.isOpen.trans h.isOpen,
    h'.served.trans h.served⟩

/-- A handler that starts with a silent part has the effect of the rest. -/
theorem Same.effect (h : Same s s') (h' : Effect env s' s'') : Effect env s s'' := by
  cases h' with
  | silent hsame => exact .silent (h.trans hsame)
  | closed hworld huser hclosed hserved hhalt =>
      rw [h.world, h.user] at hworld
      exact .closed hworld (huser.trans h.user) hclosed (hserved.trans h.served) hhalt
  | served m hopen hopen' hworld huser hserved hhalt =>
      rw [h.world, h.user] at hworld huser hserved hhalt
      exact .served m (h.isOpen.mp hopen) hopen' hworld huser (by rw [hserved, h.served]) hhalt

/-- What leaves world, session and log alone shows nothing to the server. -/
theorem Same.of_log (hworld : s'.world = s.world) (huser : s'.user_ = s.user_)
    (hlog : s'.log = s.log) : Same s s' :=
  ⟨hworld, huser, by rw [IsOpen, IsOpen, hlog], by rw [hlog]⟩

/-- An action that is neither a call of the request handler nor a shutdown is silent. -/
theorem Same.of_cons {a : Action} (hworld : s'.world = s.world) (huser : s'.user_ = s.user_)
    (hlog : s'.log = a :: s.log) (ha : exchangeOf a = none) (hne : a ≠ .shutdown) : Same s s' := by
  refine ⟨hworld, huser, ?_, ?_⟩
  · rw [IsOpen, IsOpen, hlog, List.mem_cons, not_or]
    exact and_iff_right hne.symm
  · rw [hlog, exchangesIn_cons, ha]
    simp

/-- An action that is neither an exchange nor a shutdown shows nothing to the server. -/
theorem same_note {a : Action} (ha : exchangeOf a = none) (hne : a ≠ .shutdown) :
    Same s (s.note a) :=
  .of_cons rfl rfl rfl ha hne

/-- Nor does the beginning of an operation. -/
theorem same_begin (op : Operation) : Same s (s.begin op) := .of_cons rfl rfl rfl rfl (by simp)

/-- Nor does arming the timer. -/
theorem same_scheduleTimeout (s : Cycle) : Same s s.scheduleTimeout := by
  obtain ⟨armed, queued, heq⟩ := scheduleTimeout_eq s
  rw [heq]
  exact .of_log rfl rfl rfl

/-! ### Handlers -/

/-- `shutdown` is the end of the session. -/
theorem shutdown_effect (hhalt : s.halt = none) : Effect env s s.shutdown := by
  obtain ⟨armed, queued, heq⟩ := cancel_eq s
  rw [Cycle.shutdown, heq]
  refine .closed rfl rfl (not_not_intro List.mem_cons_self) ?_ hhalt
  simp [exchangesIn_cons, exchangeOf]

/-- A result is logged before what comes next, unless the process stops. -/
theorem logResult_effect (hhalt : s.halt = none) (t : UInt8) (mr cr : ResultType)
    {k : Cycle → Cycle}
    (hk : ∀ lines, Effect env { s with lines := lines } (k { s with lines := lines })) :
    Effect env s ((s.logResult t mr cr).andThen k) := by
  rcases logResult_eq s t mr cr with ⟨lines, heq⟩ | heq
  · have hsame : Same s { s with lines := lines } := .of_log rfl rfl rfl
    rw [heq, Cycle.andThen, if_neg (by simp [hhalt])]
    exact hsame.effect (hk lines)
  · rw [heq]
    exact .silent (.of_log rfl rfl rfl)

/-- A read that failed ends the session or stops the process. -/
theorem logRead_effect (hhalt : s.halt = none) :
    Effect env s (s.logRead.andThen Cycle.shutdown) :=
  logResult_effect hhalt _ _ _ fun _ => shutdown_effect hhalt

/-- A write that failed ends the session or stops the process. -/
theorem logWrite_effect (hhalt : s.halt = none) :
    Effect env s ((s.logWrite true).andThen Cycle.shutdown) :=
  logResult_effect hhalt _ _ _ fun _ => shutdown_effect hhalt

/-- The handler of the handshake shows nothing, or ends the session. -/
theorem readRequest_effect (hhalt : s.halt = none) (error : Bool) :
    Effect env s (s.readRequest error) := by
  unfold Cycle.readRequest
  split
  · exact .silent (.refl s)
  split
  · exact logRead_effect hhalt
  · exact .silent ((same_scheduleTimeout s).trans (same_begin _))

/-- The handler of a header shows nothing, or ends the session. -/
theorem headerRead_effect (hhalt : s.halt = none) (error : Bool) :
    Effect env s (s.headerRead error) := by
  unfold Cycle.headerRead
  split
  · exact .silent (.refl s)
  split
  · exact logRead_effect hhalt
  · exact .silent ((same_scheduleTimeout s).trans (same_begin _))

/-- The handler of a last write shows nothing, or ends the session. -/
theorem handleCompletion_effect (hhalt : s.halt = none) (error : Bool) :
    Effect env s (s.handleCompletion error) := by
  have hnote : Same s (s.note .handledCompletion) := same_note rfl (by simp)
  refine hnote.effect ?_
  unfold Cycle.handleCompletion
  dsimp only
  split
  · exact .silent (.refl _)
  refine logResult_effect ?_ _ _ _ fun lines => ?_
  · exact hhalt
  split
  · exact shutdown_effect hhalt
  · refine readRequest_effect ?_ false
    exact hhalt

/-- `write_response` shows nothing, or ends the session. -/
theorem writeResponse_effect (hhalt : s.halt = none) (error : Bool) :
    Effect env s (s.writeResponse error) := by
  unfold Cycle.writeResponse
  split
  · exact .silent (.refl s)
  split
  · exact logWrite_effect hhalt
  · split
    · exact .silent (.of_log rfl rfl rfl)
    · exact .silent (.of_cons rfl rfl rfl rfl (by simp))

/-- The handler behind a header that was written shows nothing, or ends the session. -/
theorem headerWritten_effect (hhalt : s.halt = none) (error : Bool) :
    Effect env s (s.headerWritten error) := by
  unfold Cycle.headerWritten
  split
  · exact .silent (.refl s)
  split
  · exact logWrite_effect hhalt
  · split
    · exact .silent (.of_log rfl rfl rfl)
    · exact .silent (.of_cons rfl rfl rfl rfl (by simp))

/-- The call of the request handler. The answer that begins does not show. -/
theorem serve_effect (hhalt : s.halt = none) (htimed : s.timedOut = false) (hopen : IsOpen s)
    (m : Message) : Effect env s (s.serve env m) := by
  have hlog : ∀ q, Action.shutdown ∉ .served m s.replies_.msgs q :: s.log := by
    intro q
    rw [List.mem_cons, not_or]
    exact ⟨by simp, hopen⟩
  unfold Cycle.serve
  dsimp only
  cases hresult : (handleRequest env s.world s.user_ m).result with
  | error e =>
      refine .served m hopen (hlog []) rfl rfl ?_ (by rw [hresult])
      simp [exchangesIn_cons, exchangeOf, hresult, messagesOf]
  | ok r =>
      have hnonempty : r.replies.msgs ≠ [] := by
        rw [handleRequest_eq_perform] at hresult
        obtain ⟨msgType, htype⟩ := msgType_of_answered hresult
        obtain ⟨items, hshaped, -⟩ := perform_shaped htype hresult
        exact hshaped.ne_nil
      obtain ⟨first, rest, hmsgs⟩ := List.exists_cons_of_ne_nil hnonempty
      unfold Cycle.writeResponse
      simp only [htimed, Bool.false_eq_true, if_false, hmsgs, Cycle.begin]
      refine .served m hopen ?_ rfl rfl ?_ (by rw [hresult]; exact hhalt)
      · rw [IsOpen, List.mem_cons, not_or]
        exact ⟨by simp, hlog _⟩
      · simp [exchangesIn_cons, exchangeOf, hresult, messagesOf, hmsgs]

/-- A print that does not come back, or that stops the process, does nothing else. -/
theorem print_effect (hhalt : s.halt = none) (htimed : s.timedOut = false) (hopen : IsOpen s)
    (m : Message) : Effect env s (s.print env m) := by
  unfold Cycle.print
  split
  · exact .silent (.of_log rfl rfl rfl)
  · exact .silent (.of_log rfl rfl rfl)
  · exact serve_effect hhalt htimed hopen m

/-- `handle_request` serves one request of the session, or ends it, or shows nothing. -/
theorem handleRequest_effect (hhalt : s.halt = none) (hopen : s.timedOut = false → IsOpen s)
    (allocates : Nat → Bool) (error : Bool) :
    Effect env s (s.handleRequest env allocates error) := by
  unfold Cycle.handleRequest
  split
  · exact .silent (.refl s)
  rename_i htimed
  replace htimed : s.timedOut = false := by simpa using htimed
  split
  · exact logRead_effect hhalt
  -- The timer is cancelled first.
  obtain ⟨armed, queued, heq⟩ := cancel_eq s
  rw [heq]
  split
  · refine Same.effect ?_ (print_effect ?_ ?_ ?_ _)
    · exact .of_log rfl rfl rfl
    · exact hhalt
    · exact htimed
    · exact hopen htimed
  · refine Same.effect ?_ (shutdown_effect ?_)
    · exact .of_log rfl rfl rfl
    · exact hhalt
  · exact .silent (.of_log rfl rfl rfl)

/-! ### Events -/

/-- An operation completes: one case for each. -/
theorem succeeded_effect (hhalt : s.halt = none) (hopen : s.timedOut = false → IsOpen s)
    (pending : List Operation) (allocates : Nat → Bool) (op : Operation) :
    Effect env s ({ s with pending := pending }.succeeded env allocates s op) := by
  have hsame : ∀ (a : Action) (t : Cycle), t.world = s.world → t.user_ = s.user_ →
      t.log = a :: s.log → exchangeOf a = none → a ≠ .shutdown → Same s t :=
    fun a t hworld huser hlog ha hne => .of_cons hworld huser hlog ha hne
  cases op with
  | handshake =>
      refine Same.effect ?_ (readRequest_effect ?_ false)
      · exact hsame (.completed .handshake) _ rfl rfl rfl rfl (by simp)
      · exact hhalt
  | readHeader =>
      unfold Cycle.succeeded
      dsimp only
      split
      · exact .silent (.refl s)
      refine Same.effect ?_ (headerRead_effect ?_ false)
      · exact hsame (.completed .readHeader) _ rfl rfl rfl rfl (by simp)
      · exact hhalt
  | readPayload =>
      unfold Cycle.succeeded
      dsimp only
      split
      · exact .silent (.refl s)
      have hlog : Action.shutdown ∉ s.log → Action.shutdown ∉ .completed .readPayload :: s.log := by
        simp
      refine Same.effect ?_ (handleRequest_effect ?_ ?_ allocates false)
      · exact hsame (.completed .readPayload) _ rfl rfl rfl rfl (by simp)
      · exact hhalt
      · exact fun htimed => hlog (hopen htimed)
  | writeHeader =>
      refine Same.effect ?_ (headerWritten_effect ?_ false)
      · exact hsame (.completed .writeHeader) _ rfl rfl rfl rfl (by simp)
      · exact hhalt
  | writeMessage last =>
      unfold Cycle.succeeded
      dsimp only
      split
      · refine Same.effect ?_ (handleCompletion_effect ?_ false)
        · exact hsame (.wrote s.msg_) _ rfl rfl rfl rfl (by simp)
        · exact hhalt
      · refine Same.effect ?_ (writeResponse_effect ?_ false)
        · exact hsame (.wrote s.msg_) _ rfl rfl rfl rfl (by simp)
        · exact hhalt

/-- An operation fails: one case for each. -/
theorem failed_effect (hhalt : s.halt = none) (hopen : s.timedOut = false → IsOpen s)
    (op : Operation) : Effect env s (s.failed env op) := by
  have hnote : Same s (s.note (.failed op)) := same_note rfl (by simp)
  refine hnote.effect ?_
  have hhalt' : (s.note (.failed op)).halt = none := hhalt
  unfold Cycle.failed
  cases op with
  | handshake => exact readRequest_effect hhalt' true
  | readHeader => exact headerRead_effect hhalt' true
  | readPayload =>
      exact handleRequest_effect hhalt' (fun htimed => hnote.isOpen.mpr (hopen htimed)) _ true
  | writeHeader => exact headerWritten_effect hhalt' true
  | writeMessage last =>
      dsimp only
      split
      · exact handleCompletion_effect hhalt' true
      · exact writeResponse_effect hhalt' true

/-- A wait completes. An expiry ends the session. -/
theorem timerHandler_effect (hhalt : s.halt = none) (r : WaitResult) :
    Effect env s (s.timerHandler r) := by
  cases r with
  | success =>
      refine Same.effect ?_ (shutdown_effect ?_)
      · exact .of_log rfl rfl rfl
      · exact hhalt
  | operationAborted => exact .silent (.refl s)
  | otherError => exact .silent (same_scheduleTimeout s)

/-- A connection with a pending operation was not shut down unless it was timed out. -/
theorem Phase.open_of_pending (h : Phase s) (hpending : s.pending ≠ []) :
    s.timedOut = false → IsOpen s := by
  cases h with
  | waiting op st hp hhalt htrace hawaits hquiet hopen => exact hopen
  | ended st hp => exact absurd hp hpending

/-- Every event of a connection is silent, shuts it down, or calls the request handler. -/
theorem cycle_effect (h : Phase s) (hhalt : s.halt = none) (hpending : s.pending ≠ [])
    {e : Cycle.Event} (he : ∀ w, e ≠ .elsewhere w) : Effect env s (Cycle.step env s e) := by
  have hopen := h.open_of_pending hpending
  unfold Cycle.step
  rw [if_neg (by simp [hhalt])]
  cases e with
  | succeed k allocates =>
      dsimp only
      split
      · exact succeeded_effect hhalt hopen _ _ _
      · exact .silent (.refl s)
  | fail k =>
      dsimp only
      split
      · refine Same.effect ?_ (failed_effect ?_ ?_ _)
        · exact .of_log rfl rfl rfl
        · exact hhalt
        · exact hopen
      · exact .silent (.refl s)
  | expire | timerFault =>
      simp only [Cycle.complete]
      split
      · exact .silent (.of_log rfl rfl rfl)
      · exact .silent (.refl s)
  | deliver k =>
      dsimp only
      split
      · exact .silent (.refl s)
      split
      · refine Same.effect ?_ (timerHandler_effect ?_ _)
        · exact .of_log rfl rfl rfl
        · exact hhalt
      · exact .silent (.refl s)
  | elsewhere w => exact absurd rfl (he w)

end RemoteBackup.Proofs
