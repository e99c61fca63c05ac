import RemoteBackup.Proofs.Serving

/-!
# `RemoteBackup.Proofs.StaleTimer`: expiries that come too late

An expiry whose completion was queued before `cancel` or `expires_after` is delivered with
success all the same. Its handler cannot tell that a read has completed since, and ends the
connection.

* `Timely`: the invariant of the runs in which no read completes behind a queued expiry
  (`Clear`). The armed wait and the queued expiries belong to the read that is awaited, and
  while a reply is written there are none.
* `timely_step`: one event, with one lemma for each handler.
* `stale_timer_harmless`: the runs. `not_stale_timer_harmless` is a run in which the expiry and
  the payload are queued at the same moment.
-/

set_option autoImplicit false

namespace RemoteBackup.Proofs

open Lib

/-! ### Properties of a step and of a state -/

/-- An expiry that is delivered belongs to a wait since which no read has completed. -/
def ExpiryFresh (s : Cycle) (e : Cycle.Event) : Prop :=
  ∀ k wait, e = .deliver k → s.queued[k]? = some (wait, .success) → wait.reads = s.reads

/-- The reply to the last request that the handler was called with is not written in full. -/
def Unanswered (l : List Action) : Prop :=
  ∃ post m left q pre, l = post ++ .served m left q :: pre ∧ (∀ x ∈ post, isServed x = false) ∧
    writtenIn post ≠ q

/-- The write of a header or a message is pending. -/
def Writing (s : Cycle) : Prop :=
  .writeHeader ∈ s.pending ∨ ∃ last, .writeMessage last ∈ s.pending

/-- A reply that is not written in full goes on to be written, unless an operation on the
socket has failed. -/
def KeepsAnswering (s : Cycle) : Prop :=
  Unanswered s.log → (∀ op, .failed op ∉ s.log) →
    Writing s ∧ s.halt = none ∧ s.timedOut = false ∧ .shutdown ∉ s.log

/-- No read completes behind a queued expiry. A wait of the timer ends by its expiry or by its
cancellation. -/
def Clear (s : Cycle) : Cycle.Event → Prop
  | .succeed k _ => s.pending[k]? = some .readHeader ∨ s.pending[k]? = some .readPayload →
      ∀ x ∈ s.queued, x.2 ≠ .success
  | .timerFault => False
  | _ => True

/-- Whether an event is clear is read off the queue of completions. -/
instance (s : Cycle) (e : Cycle.Event) : Decidable (Clear s e) := by
  cases e <;> unfold Clear <;> infer_instance

/-! ### The invariant -/

/-- The armed wait, and the queued expiries, belong to the read that is awaited. -/
structure TimerFresh (s : Cycle) : Prop where
  armed : ∀ wait, s.armed = some wait → wait.reads = s.reads ∧ s.timedOut = false
  queued : ∀ wait r, (wait, r) ∈ s.queued →
    r ≠ .otherError ∧ (r = .success → wait.reads = s.reads)

/-- No wait is armed, and no expiry is queued. -/
structure TimerIdle (s : Cycle) : Prop where
  armed : s.armed = none
  queued : ∀ wait r, (wait, r) ∈ s.queued → r = .operationAborted

/-- A timer without waits has no stale one. -/
theorem TimerIdle.fresh {s : Cycle} (h : TimerIdle s) : TimerFresh s where
  armed := fun wait hwait => absurd (h.armed.symm.trans hwait) (by simp)
  queued := fun wait r hr => by simp [h.queued wait r hr]

/-- What holds of the timer of a connection at any time. -/
structure Timely (s : Cycle) : Prop where
  fresh : TimerFresh s
  writing : Writing s → TimerIdle s ∧ s.timedOut = false

/-- A state that writes no message asks for fresh waits only. -/
theorem timely_of_not_writing {s : Cycle} (h : TimerFresh s) (hs : ¬ Writing s) : Timely s :=
  ⟨h, fun hw => absurd hw hs⟩

/-- Without a wait, a state that was not shut down by the timer is timely whatever it does. -/
theorem timely_of_idle {s : Cycle} (h : TimerIdle s) (htimed : s.timedOut = false) : Timely s :=
  ⟨h.fresh, fun _ => ⟨h, htimed⟩⟩

/-! ### The timer -/

/-- No wait is armed after `cancel`. -/
theorem cancel_armed (s : Cycle) : s.cancel.armed = none := by
  unfold Cycle.cancel
  split
  · rfl
  · assumption

/-- `cancel` queues at most an aborted completion. -/
theorem mem_cancel_queued {s : Cycle} {wait : Wait} {r : WaitResult}
    (h : (wait, r) ∈ s.cancel.queued) : (wait, r) ∈ s.queued ∨ r = .operationAborted := by
  unfold Cycle.cancel at h
  split at h
  · rcases List.mem_append.mp h with h | h
    · exact Or.inl h
    · exact Or.inr (Prod.mk.inj (List.mem_singleton.mp h)).2
  · exact Or.inl h

/-- `cancel` completes no read. -/
@[simp] theorem cancel_reads (s : Cycle) : s.cancel.reads = s.reads := by
  obtain ⟨armed, queued, h⟩ := cancel_eq s
  rw [h]

/-- `cancel` does not time the connection out. -/
@[simp] theorem cancel_timedOut (s : Cycle) : s.cancel.timedOut = s.timedOut := by
  obtain ⟨armed, queued, h⟩ := cancel_eq s
  rw [h]

/-- `cancel` leaves the operations of the socket alone. -/
@[simp] theorem cancel_pending (s : Cycle) : s.cancel.pending = s.pending := by
  obtain ⟨armed, queued, h⟩ := cancel_eq s
  rw [h]

/-- Only the armed wait is cancelled. -/
theorem TimerFresh.cancel {s : Cycle} (h : TimerFresh s) : TimerFresh s.cancel where
  armed := fun wait hwait => absurd ((cancel_armed s).symm.trans hwait) (by simp)
  queued := by
    intro wait r hr
    rcases mem_cancel_queued hr with hr | rfl
    · rw [cancel_reads]
      exact h.queued wait r hr
    · simp

/-- A cancelled timer is idle when no expiry was queued. -/
theorem timerIdle_cancel {s : Cycle} (h : ∀ wait r, (wait, r) ∈ s.queued → r = .operationAborted) :
    TimerIdle s.cancel where
  armed := cancel_armed s
  queued := by
    intro wait r hr
    rcases mem_cancel_queued hr with hr | rfl
    · exact h wait r hr
    · rfl

/-- A wait that is armed now belongs to the read that follows. -/
theorem TimerFresh.scheduleTimeout {s : Cycle}
    (h : ∀ wait r, (wait, r) ∈ s.queued → r ≠ .otherError ∧ (r = .success → wait.reads = s.reads))
    (htimed : s.timedOut = false) : TimerFresh s.scheduleTimeout where
  armed := by
    intro wait hwait
    obtain rfl := Option.some.inj hwait
    exact ⟨(cancel_reads s).symm, (cancel_timedOut s).trans htimed⟩
  queued := by
    intro wait r hr
    show r ≠ .otherError ∧ (r = .success → wait.reads = s.cancel.reads)
    rw [cancel_reads]
    rcases mem_cancel_queued hr with hr | rfl
    · exact h wait r hr
    · simp

/-! ### The handlers -/

/-- Where nothing is pending, nothing is being written. -/
theorem not_writing_of_nil {s : Cycle} (h : s.pending = []) : ¬ Writing s := by
  simp [Writing, h]

/-- A read or a handshake is no write. -/
theorem not_writing_of_read {s : Cycle} {op : Operation} (h : s.pending = [op])
    (hop : op = .readHeader ∨ op = .readPayload ∨ op = .handshake) : ¬ Writing s := by
  rcases hop with rfl | rfl | rfl <;> simp [Writing, h]

/-- A connection that shuts down with fresh waits is timely. -/
theorem timely_shutdown {s : Cycle} (h : TimerFresh s) (hp : s.pending = []) :
    Timely s.shutdown :=
  timely_of_not_writing ⟨h.cancel.armed, h.cancel.queued⟩
    (not_writing_of_nil ((cancel_pending s).trans hp))

/-- The timer has no part in logging. -/
theorem timely_logResult {s : Cycle} (h : TimerFresh s) (hp : s.pending = []) (t : UInt8)
    (mr cr : ResultType) {k : Cycle → Cycle}
    (hk : ∀ lines, Timely (k { s with lines := lines })) :
    Timely ((s.logResult t mr cr).andThen k) := by
  rcases logResult_eq s t mr cr with ⟨lines, heq⟩ | heq
  · rw [heq, Cycle.andThen]
    split
    · exact timely_of_not_writing ⟨h.armed, h.queued⟩ (not_writing_of_nil hp)
    · exact hk lines
  · rw [heq]
    exact timely_of_not_writing ⟨h.armed, h.queued⟩ (not_writing_of_nil hp)

/-- An operation that fails leaves a cancelled timer. -/
theorem timely_logShutdown {s : Cycle} (h : TimerFresh s) (hp : s.pending = []) (t : UInt8)
    (mr cr : ResultType) : Timely ((s.logResult t mr cr).andThen Cycle.shutdown) :=
  timely_logResult h hp t mr cr fun _ => timely_shutdown ⟨h.armed, h.queued⟩ hp

/-- A read that begins with fresh waits is timely. -/
theorem timely_begin_read {s : Cycle} (h : TimerFresh s) (hp : s.pending = []) {op : Operation}
    (hop : op = .readHeader ∨ op = .readPayload ∨ op = .handshake) : Timely (s.begin op) :=
  timely_of_not_writing ⟨h.armed, h.queued⟩
    (not_writing_of_read (by rw [Cycle.begin, hp, List.nil_append]) hop)

/-- Arming the timer leaves the operations of the socket alone. -/
theorem scheduleTimeout_pending (s : Cycle) : s.scheduleTimeout.pending = s.pending :=
  cancel_pending s

/-- `read_request` arms a fresh wait for the header. -/
theorem timely_readRequest {s : Cycle} (h : TimerFresh s) (hp : s.pending = []) (error : Bool) :
    Timely (s.readRequest error) := by
  unfold Cycle.readRequest
  split
  · exact timely_of_not_writing h (not_writing_of_nil hp)
  rename_i htimed
  split
  · exact timely_logShutdown h hp _ _ _
  · exact timely_begin_read (.scheduleTimeout h.queued (Bool.eq_false_of_not_eq_true htimed))
      ((scheduleTimeout_pending s).trans hp) (Or.inl rfl)

/-- Behind a read, the timer is armed anew, and no expiry was queued. -/
theorem timely_headerRead {s : Cycle} (hp : s.pending = [])
    (hqueued : ∀ wait r, (wait, r) ∈ s.queued → r = .operationAborted)
    (harmed : s.timedOut = true → s.armed = none) : Timely (s.headerRead false) := by
  unfold Cycle.headerRead
  split
  · rename_i htimed
    exact timely_of_not_writing (TimerIdle.fresh ⟨harmed htimed, hqueued⟩) (not_writing_of_nil hp)
  · rename_i htimed
    refine timely_begin_read (.scheduleTimeout (fun wait r hr => ?_)
      (Bool.eq_false_of_not_eq_true htimed)) ((scheduleTimeout_pending s).trans hp)
      (Or.inr (Or.inl rfl))
    simp [hqueued wait r hr]

/-- `write_response` begins a write while no wait is armed. -/
theorem timely_writeResponse {s : Cycle} (h : TimerIdle s) (hp : s.pending = []) :
    Timely (s.writeResponse false) := by
  unfold Cycle.writeResponse
  split
  · exact timely_of_not_writing h.fresh (not_writing_of_nil hp)
  rename_i htimed
  simp only [Bool.false_eq_true, if_false]
  split
  · exact timely_of_not_writing (TimerIdle.fresh ⟨h.armed, h.queued⟩) (not_writing_of_nil hp)
  · exact timely_of_idle ⟨h.armed, h.queued⟩ (Bool.eq_false_of_not_eq_true htimed)

/-- The write of the message follows that of its header without a wait. -/
theorem timely_headerWritten {s : Cycle} (h : TimerIdle s) (hp : s.pending = []) :
    Timely (s.headerWritten false) := by
  unfold Cycle.headerWritten
  split
  · exact timely_of_not_writing h.fresh (not_writing_of_nil hp)
  rename_i htimed
  simp only [Bool.false_eq_true, if_false]
  split
  · exact timely_of_not_writing (TimerIdle.fresh ⟨h.armed, h.queued⟩) (not_writing_of_nil hp)
  · exact timely_of_idle ⟨h.armed, h.queued⟩ (Bool.eq_false_of_not_eq_true htimed)

/-- `handle_completion` goes back to reading, with a fresh wait. -/
theorem timely_handleCompletion {s : Cycle} (h : TimerFresh s) (hp : s.pending = [])
    (error : Bool) : Timely (s.handleCompletion error) := by
  have hfresh : TimerFresh (s.note .handledCompletion) := ⟨h.armed, h.queued⟩
  unfold Cycle.handleCompletion
  dsimp only
  split
  · exact timely_of_not_writing hfresh (not_writing_of_nil hp)
  · refine timely_logResult hfresh hp _ _ _ fun lines => ?_
    split
    · exact timely_shutdown ⟨h.armed, h.queued⟩ hp
    · have hlines : TimerFresh { s.note .handledCompletion with lines := lines } :=
        ⟨h.armed, h.queued⟩
      exact timely_readRequest hlines hp false

/-- The print of a request, and the request handler behind it, leave an idle timer alone. -/
theorem timely_print {env : Env} {s : Cycle} (hidle : TimerIdle s) (hp : s.pending = [])
    (m : Message) : Timely (s.print env m) := by
  unfold Cycle.print
  split
  · exact timely_of_not_writing (TimerIdle.fresh ⟨hidle.armed, hidle.queued⟩)
      (not_writing_of_nil hp)
  · exact timely_of_not_writing (TimerIdle.fresh ⟨hidle.armed, hidle.queued⟩)
      (not_writing_of_nil hp)
  unfold Cycle.serve
  dsimp only
  split
  · exact timely_writeResponse ⟨hidle.armed, hidle.queued⟩ hp
  · exact timely_of_not_writing (TimerIdle.fresh ⟨hidle.armed, hidle.queued⟩)
      (not_writing_of_nil hp)

/-- While a reply is written, the timer is idle. -/
theorem timely_handleRequest {env : Env} {allocates : Nat → Bool} {s : Cycle}
    (hp : s.pending = []) (hqueued : ∀ wait r, (wait, r) ∈ s.queued → r = .operationAborted)
    (harmed : s.timedOut = true → s.armed = none) :
    Timely (s.handleRequest env allocates false) := by
  have hidle := timerIdle_cancel hqueued
  have hp' : s.cancel.pending = [] := (cancel_pending s).trans hp
  unfold Cycle.handleRequest
  split
  · rename_i htimed
    exact timely_of_not_writing (TimerIdle.fresh ⟨harmed htimed, hqueued⟩) (not_writing_of_nil hp)
  simp only [Bool.false_eq_true, if_false]
  split
  · exact timely_print hidle hp' _
  · exact timely_shutdown hidle.fresh hp'
  · exact timely_of_not_writing (TimerIdle.fresh ⟨hidle.armed, hidle.queued⟩)
      (not_writing_of_nil hp')

/-! ### Events -/

/-- A completion of the pending operation. A read that completes meets no expiry that is queued
already. -/
theorem timely_succeeded {env : Env} {allocates : Nat → Bool} {s : Cycle} {op : Operation}
    (h : Timely s) (hpending : s.pending = [op])
    (hclear : op = .readHeader ∨ op = .readPayload → ∀ x ∈ s.queued, x.2 ≠ .success) :
    Timely ({ s with pending := [] }.succeeded env allocates s op) := by
  have harmed : s.timedOut = true → s.armed = none := by
    intro htimed
    cases hs : s.armed with
    | none => rfl
    | some wait => exact absurd (h.fresh.armed wait hs).2 (by simp [htimed])
  -- A read completes only behind waits that were cancelled.
  have hqueued : op = .readHeader ∨ op = .readPayload →
      ∀ wait r, (wait, r) ∈ s.queued → r = .operationAborted := by
    intro hop wait r hr
    cases r with
    | operationAborted => rfl
    | success => exact absurd rfl (hclear hop _ hr)
    | otherError => exact absurd rfl (h.fresh.queued wait _ hr).1
  cases op with
  | handshake =>
      have hfresh : TimerFresh ({ s with pending := [] }.note (.completed .handshake)) :=
        ⟨h.fresh.armed, h.fresh.queued⟩
      exact timely_readRequest hfresh rfl false
  | readHeader =>
      unfold Cycle.succeeded
      dsimp only
      split
      · exact h
      · exact timely_headerRead rfl (hqueued (Or.inl rfl)) harmed
  | readPayload =>
      unfold Cycle.succeeded
      dsimp only
      split
      · exact h
      · exact timely_handleRequest rfl (hqueued (Or.inr rfl)) harmed
  | writeHeader =>
      obtain ⟨hidle, -⟩ := h.writing (Or.inl (by simp [hpending]))
      exact timely_headerWritten ⟨hidle.armed, hidle.queued⟩ rfl
  | writeMessage last =>
      obtain ⟨hidle, -⟩ := h.writing (Or.inr ⟨last, by simp [hpending]⟩)
      unfold Cycle.succeeded
      dsimp only
      split
      · refine timely_handleCompletion (TimerIdle.fresh ?_) rfl false
        exact ⟨hidle.armed, hidle.queued⟩
      · exact timely_writeResponse ⟨hidle.armed, hidle.queued⟩ rfl

/-- An operation that fails begins no other one. -/
theorem timely_failed {env : Env} {s : Cycle} (h : TimerFresh s) (hp : s.pending = [])
    (op : Operation) : Timely (s.failed env op) := by
  have hfresh : TimerFresh (s.note (.failed op)) := ⟨h.armed, h.queued⟩
  have hstop : Timely (s.note (.failed op)) := timely_of_not_writing hfresh (not_writing_of_nil hp)
  unfold Cycle.failed
  dsimp only
  cases op with
  -- A failed handshake is logged, and the connection reads on.
  | handshake => exact timely_readRequest hfresh hp true
  | readHeader =>
      dsimp only [Cycle.headerRead]
      split
      · exact hstop
      · exact timely_logShutdown hfresh hp _ _ _
  | readPayload =>
      dsimp only [Cycle.handleRequest]
      split
      · exact hstop
      · exact timely_logShutdown hfresh hp _ _ _
  | writeHeader =>
      dsimp only [Cycle.headerWritten]
      split
      · exact hstop
      · exact timely_logShutdown hfresh hp _ _ _
  | writeMessage last =>
      dsimp only
      split
      · exact timely_handleCompletion hfresh hp true
      · dsimp only [Cycle.writeResponse]
        split
        · exact hstop
        · exact timely_logShutdown hfresh hp _ _ _

/-- The armed wait ends. -/
theorem timely_expire {s : Cycle} (h : Timely s) : Timely (s.complete .success) := by
  unfold Cycle.complete
  split
  · rename_i wait hwait
    have hnot : ¬ Writing s := fun hw =>
      absurd (hwait.symm.trans (h.writing hw).1.armed) (by simp)
    refine timely_of_not_writing ⟨by simp, ?_⟩ hnot
    intro wait' r hr
    rcases List.mem_append.mp hr with hr | hr
    · exact h.fresh.queued wait' r hr
    · obtain ⟨rfl, rfl⟩ := Prod.mk.inj (List.mem_singleton.mp hr)
      exact ⟨by simp, fun _ => (h.fresh.armed wait' hwait).1⟩
  · exact h

/-- A completion of the timer is delivered. -/
theorem timely_deliver {s : Cycle} (h : Timely s) {k : Nat} {wait : Wait} {r : WaitResult}
    (hk : s.queued[k]? = some (wait, r)) :
    Timely ({ s with queued := s.queued.eraseIdx k }.timerHandler r) := by
  have hmem : (wait, r) ∈ s.queued := List.mem_of_getElem? hk
  have hrest : ∀ x, x ∈ s.queued.eraseIdx k → x ∈ s.queued := fun x hx =>
    List.mem_of_mem_eraseIdx hx
  cases r with
  | success =>
      -- While a reply is written, no expiry is queued.
      have hnot : ¬ Writing s := fun hw =>
        absurd ((h.writing hw).1.queued wait _ hmem) (by simp)
      have hqueued : ∀ wait r, (wait, r) ∈ s.queued.eraseIdx k →
          r ≠ .otherError ∧ (r = .success → wait.reads = s.reads) :=
        fun wait r hr => h.fresh.queued wait r (hrest _ hr)
      refine timely_of_not_writing ⟨?_, ?_⟩ ?_
      · intro wait' hwait'
        exact absurd ((cancel_armed _).symm.trans hwait') (by simp)
      · intro wait' r hr
        show r ≠ .otherError ∧ (r = .success → wait'.reads = Cycle.reads (Cycle.cancel _))
        rw [cancel_reads]
        rcases mem_cancel_queued hr with hr | rfl
        · exact hqueued wait' r hr
        · simp
      · intro hw
        exact hnot (by simpa [Writing, Cycle.timerHandler, Cycle.shutdown] using hw)
  | operationAborted =>
      exact ⟨⟨h.fresh.armed, fun wait r hr => h.fresh.queued wait r (hrest _ hr)⟩, fun hw =>
        ⟨⟨(h.writing hw).1.armed, fun wait r hr => (h.writing hw).1.queued wait r (hrest _ hr)⟩,
          (h.writing hw).2⟩⟩
  | otherError => exact absurd rfl (h.fresh.queued wait _ hmem).1

/-- An operation that completes is the only one that is pending. -/
theorem Phase.pending_eq {s : Cycle} {k : Nat} {op : Operation} (h : Phase s)
    (hk : s.pending[k]? = some op) : k = 0 ∧ s.pending = [op] := by
  cases h with
  | ended st hpending => simp [hpending] at hk
  | waiting op' st hpending =>
      rw [hpending] at hk
      cases k with
      | zero => exact ⟨rfl, hpending.trans (congrArg ([·]) (by simpa using hk))⟩
      | succ k => simp at hk

/-- Every event at which no read completes behind a queued expiry keeps the timer in order. -/
theorem timely_step (env : Env) (s : Cycle) (e : Cycle.Event) (h : Timely s) (hphase : Phase s)
    (hclear : Clear s e) : Timely (Cycle.step env s e) := by
  unfold Cycle.step
  split
  · exact h
  cases e with
  | succeed k allocates =>
      dsimp only
      split
      · rename_i op hop
        obtain ⟨rfl, hpending⟩ := hphase.pending_eq hop
        have hstep := @timely_succeeded env allocates s op h hpending fun hread =>
          hclear (by simpa [hpending] using hread)
        simpa [hpending] using hstep
      · exact h
  | fail k =>
      dsimp only
      split
      · rename_i op hop
        obtain ⟨rfl, hpending⟩ := hphase.pending_eq hop
        have hfresh : TimerFresh { s with pending := [] } := ⟨h.fresh.armed, h.fresh.queued⟩
        simpa [hpending] using @timely_failed env _ hfresh rfl op
      · exact h
  | expire => exact timely_expire h
  -- This is the event that the condition excludes.
  | timerFault => exact hclear.elim
  | deliver k =>
      dsimp only
      split
      · exact h
      split
      · rename_i wait r hk
        exact timely_deliver h hk
      · exact h
  | elsewhere w => exact ⟨⟨h.fresh.armed, h.fresh.queued⟩, fun hw =>
      ⟨⟨(h.writing hw).1.armed, (h.writing hw).1.queued⟩, (h.writing hw).2⟩⟩

/-! ### Who times a connection out -/

/-- Noting what was done does not time the connection out. -/
@[simp] theorem note_timedOut (s : Cycle) (a : Action) : (s.note a).timedOut = s.timedOut := rfl

/-- Beginning an operation does not time the connection out. -/
@[simp] theorem begin_timedOut (s : Cycle) (op : Operation) :
    (s.begin op).timedOut = s.timedOut := rfl

/-- Arming the timer does not time the connection out. -/
@[simp] theorem scheduleTimeout_timedOut (s : Cycle) :
    s.scheduleTimeout.timedOut = s.timedOut := cancel_timedOut s

/-- `shutdown` does not set the flag: only the handler of an expiry does. -/
@[simp] theorem shutdown_timedOut (s : Cycle) : s.shutdown.timedOut = s.timedOut :=
  cancel_timedOut s

/-- Logging does not time the connection out, nor does what follows it. -/
theorem logResult_timedOut (s : Cycle) (t : UInt8) (mr cr : ResultType) {k : Cycle → Cycle}
    (hk : ∀ s, (k s).timedOut = s.timedOut) :
    ((s.logResult t mr cr).andThen k).timedOut = s.timedOut := by
  rcases logResult_eq s t mr cr with ⟨lines, heq⟩ | heq
  · rw [heq, Cycle.andThen]
    split
    · rfl
    · exact hk _
  · rw [heq]
    rfl

/-- `read_request` does not time the connection out. -/
@[simp] theorem readRequest_timedOut (s : Cycle) (error : Bool) :
    (s.readRequest error).timedOut = s.timedOut := by
  unfold Cycle.readRequest
  split
  · rfl
  split
  · exact logResult_timedOut s _ _ _ shutdown_timedOut
  · simp

/-- The handler of a header does not time the connection out. -/
@[simp] theorem headerRead_timedOut (s : Cycle) (error : Bool) :
    (s.headerRead error).timedOut = s.timedOut := by
  unfold Cycle.headerRead
  split
  · rfl
  split
  · exact logResult_timedOut s _ _ _ shutdown_timedOut
  · simp

/-- `write_response` does not time the connection out. -/
@[simp] theorem writeResponse_timedOut (s : Cycle) (error : Bool) :
    (s.writeResponse error).timedOut = s.timedOut := by
  unfold Cycle.writeResponse
  split
  · rfl
  split
  · exact logResult_timedOut s _ _ _ shutdown_timedOut
  · split <;> rfl

/-- The handler behind a header that was written does not time the connection out. -/
@[simp] theorem headerWritten_timedOut (s : Cycle) (error : Bool) :
    (s.headerWritten error).timedOut = s.timedOut := by
  unfold Cycle.headerWritten
  split
  · rfl
  split
  · exact logResult_timedOut s _ _ _ shutdown_timedOut
  · split <;> rfl

/-- `handle_completion` does not time the connection out. -/
@[simp] theorem handleCompletion_timedOut (s : Cycle) (error : Bool) :
    (s.handleCompletion error).timedOut = s.timedOut := by
  unfold Cycle.handleCompletion
  dsimp only
  split
  · rfl
  · exact logResult_timedOut (s.note .handledCompletion) _ _ _ fun s => by split <;> simp

/-- Neither the print of a request nor the request does so. -/
@[simp] theorem print_timedOut (env : Env) (s : Cycle) (m : Message) :
    (s.print env m).timedOut = s.timedOut := by
  unfold Cycle.print
  split
  · rfl
  · rfl
  unfold Cycle.serve
  dsimp only
  split <;> simp

/-- `handle_request` does not time the connection out. -/
@[simp] theorem handleRequest_timedOut (env : Env) (allocates : Nat → Bool) (s : Cycle)
    (error : Bool) : (s.handleRequest env allocates error).timedOut = s.timedOut := by
  unfold Cycle.handleRequest
  split
  · rfl
  split
  · exact logResult_timedOut s _ _ _ shutdown_timedOut
  split <;> simp

/-- Only an expiry that is delivered times a connection out. -/
theorem step_timedOut (env : Env) (s : Cycle) (e : Cycle.Event) :
    (Cycle.step env s e).timedOut = s.timedOut ∨
      ∃ k wait, e = .deliver k ∧ s.queued[k]? = some (wait, .success) := by
  unfold Cycle.step
  split
  · exact Or.inl rfl
  cases e with
  | succeed k allocates =>
      left
      dsimp only
      split
      · rename_i op hop
        unfold Cycle.succeeded
        cases op with
        | handshake => simp
        | readHeader => dsimp only; split <;> simp
        | readPayload => dsimp only; split <;> simp
        | writeHeader => simp
        | writeMessage last => dsimp only; split <;> simp
      · rfl
  | fail k =>
      left
      dsimp only
      split
      · rename_i op hop
        unfold Cycle.failed
        cases op with
        | writeMessage last => dsimp only; split <;> simp
        | handshake | readHeader | readPayload | writeHeader => simp
      · rfl
  | expire =>
      left
      simp only [Cycle.complete]
      split <;> rfl
  | timerFault =>
      left
      simp only [Cycle.complete]
      split <;> rfl
  | deliver k =>
      dsimp only
      split
      · exact Or.inl rfl
      cases hk : s.queued[k]? with
      | none => exact Or.inl rfl
      | some x =>
          obtain ⟨wait, r⟩ := x
          cases r with
          -- The handler of the wait is the only one that sets the flag.
          | success => exact Or.inr ⟨k, wait, rfl, hk⟩
          | operationAborted => exact Or.inl rfl
          | otherError => exact Or.inl (scheduleTimeout_timedOut _)
  | elsewhere w => exact Or.inl rfl

/-- From the one state to the other the request handler was not called. -/
def NoCall (s s' : Cycle) : Prop := ∃ new, s'.log = new ++ s.log ∧ ∀ a ∈ new, isServed a = false

/-- Where nothing was logged the request handler was not called. -/
theorem NoCall.of_log {s s' : Cycle} (h : s'.log = s.log) : NoCall s s' := ⟨[], h, by simp⟩

/-- What is noted is no call of the request handler. -/
theorem NoCall.note {s s' : Cycle} (h : NoCall s s') {a : Action} (ha : isServed a = false) :
    NoCall s (s'.note a) := by
  obtain ⟨new, hlog, hnew⟩ := h
  refine ⟨a :: new, congrArg (a :: ·) hlog, fun b hb => ?_⟩
  rcases List.mem_cons.mp hb with rfl | hb
  · exact ha
  · exact hnew b hb

/-- A completion of the timer does not call the request handler. -/
theorem deliver_noCall (env : Env) (s : Cycle) (k : Nat) :
    NoCall s (Cycle.step env s (.deliver k)) := by
  unfold Cycle.step
  split
  · exact .of_log rfl
  dsimp only
  split
  · exact .of_log rfl
  split
  · rename_i wait r hk
    cases r with
    | success =>
        obtain ⟨armed, queued, world, conn, lines, heq⟩ := shutdown_eq
          { s with queued := s.queued.eraseIdx k, timedOut := true }
        exact ⟨[.shutdown], by simp only [Cycle.timerHandler, heq]; rfl, by simp [isServed]⟩
    | operationAborted => exact .of_log rfl
    | otherError =>
        obtain ⟨armed, queued, heq⟩ := scheduleTimeout_eq { s with queued := s.queued.eraseIdx k }
        simp only [Cycle.timerHandler, heq]
        exact .of_log rfl
  · exact .of_log rfl

section Late

/-! Once the connection is timed out, a handler returns at once. -/

variable {s : Cycle} (h : s.timedOut = true) (error : Bool)
include h

/-- `read_request` does nothing on a connection that has timed out. -/
theorem readRequest_late : s.readRequest error = s := by simp [Cycle.readRequest, h]

/-- Nor does the handler of a header. -/
theorem headerRead_late : s.headerRead error = s := by simp [Cycle.headerRead, h]

/-- Nor does `handle_request`. -/
theorem handleRequest_late (env : Env) (allocates : Nat → Bool) :
    s.handleRequest env allocates error = s := by simp [Cycle.handleRequest, h]

/-- Nor does `write_response`. -/
theorem writeResponse_late : s.writeResponse error = s := by simp [Cycle.writeResponse, h]

/-- Nor does the handler behind a header that was written. -/
theorem headerWritten_late : s.headerWritten error = s := by simp [Cycle.headerWritten, h]

/-- `handle_completion` is entered, and leaves at once. -/
theorem handleCompletion_late : s.handleCompletion error = s.note .handledCompletion := by
  simp [Cycle.handleCompletion, h]

end Late

/-- The handler of an operation that succeeds late makes no call. -/
theorem succeeded_late {env : Env} {s : Cycle} (htimed : s.timedOut = true)
    (allocates : Nat → Bool) (op : Operation) (k : Nat) :
    NoCall s
      (Cycle.succeeded env allocates { s with pending := s.pending.eraseIdx k } s op) := by
  have hsame : NoCall s s := .of_log rfl
  unfold Cycle.succeeded
  cases op with
  | handshake =>
      dsimp only
      rw [readRequest_late]
      · exact NoCall.note (.of_log rfl) rfl
      · exact htimed
  | readHeader =>
      dsimp only
      split
      · exact hsame
      -- The operation goes on, but what it starts fails at once.
      rw [headerRead_late]
      · exact NoCall.note (.of_log rfl) rfl
      · exact htimed
  | readPayload =>
      dsimp only
      split
      · exact hsame
      rw [handleRequest_late]
      · exact NoCall.note (.of_log rfl) rfl
      · exact htimed
  | writeHeader =>
      dsimp only
      rw [headerWritten_late]
      · exact NoCall.note (.of_log rfl) rfl
      · exact htimed
  | writeMessage last =>
      dsimp only
      rw [handleCompletion_late, writeResponse_late]
      · split
        · exact (NoCall.note (.of_log rfl) rfl).note rfl
        · exact NoCall.note (.of_log rfl) rfl
      all_goals exact htimed

/-- The handler of an operation that fails late makes no call. -/
theorem failed_late {env : Env} {s : Cycle} (htimed : s.timedOut = true) (op : Operation)
    (k : Nat) : NoCall s (Cycle.failed env { s with pending := s.pending.eraseIdx k } op) := by
  have hfailed :
      NoCall s (Cycle.note { s with pending := s.pending.eraseIdx k } (.failed op)) :=
    NoCall.note (.of_log rfl) rfl
  have htimed' :
      (Cycle.note { s with pending := s.pending.eraseIdx k } (.failed op)).timedOut = true :=
    htimed
  unfold Cycle.failed
  dsimp only
  rw [readRequest_late htimed', headerRead_late htimed', handleRequest_late htimed',
    headerWritten_late htimed', handleCompletion_late htimed', writeResponse_late htimed']
  cases op with
  | handshake | readHeader | readPayload | writeHeader => exact hfailed
  | writeMessage last =>
      dsimp only
      split
      · exact hfailed.note rfl
      · exact hfailed

/-- After it was timed out, a connection calls the request handler no more. -/
theorem late_noCall {env : Env} {s : Cycle} (htimed : s.timedOut = true) (e : Cycle.Event) :
    NoCall s (Cycle.step env s e) := by
  have hsame : NoCall s s := .of_log rfl
  cases e with
  | deliver k => exact deliver_noCall env s k
  -- The wait only puts its handler into the queue.
  | expire | timerFault =>
      unfold Cycle.step
      simp only [Cycle.complete]
      repeat' split
      all_goals exact .of_log rfl
  | elsewhere w =>
      unfold Cycle.step
      split <;> exact .of_log rfl
  | succeed k allocates =>
      unfold Cycle.step
      split
      · exact hsame
      dsimp only
      split
      · exact succeeded_late htimed allocates _ k
      · exact hsame
  | fail k =>
      unfold Cycle.step
      split
      · exact hsame
      dsimp only
      split
      · exact failed_late htimed _ k
      · exact hsame

/-! ### Replies that are under way -/

/-- The last reply was written in full, or an operation has failed. -/
def Settled (l : List Action) : Prop := ¬ Unanswered l ∨ ∃ op, .failed op ∈ l

/-- The log keeps the latest first, so the messages of its parts are written in turn. -/
theorem writtenIn_append (l l' : List Action) :
    writtenIn (l ++ l') = writtenIn l' ++ writtenIn l := by
  simp [writtenIn]

/-- A stage with nothing left to write has no reply under way. -/
theorem not_unanswered {l : List Action} {st : Stage} (h : Trace l st) (hst : st.unwritten = []) :
    ¬ Unanswered l := by
  rintro ⟨post, m, left, q, pre, rfl, hpost, hne⟩
  have hwritten := h.written hpost
  rw [hst, List.append_nil] at hwritten
  exact hne hwritten

/-- Without another call of the request handler, a settled log stays settled. -/
theorem Settled.append {new l : List Action} {st : Stage} (h : Settled l)
    (htrace : Trace (new ++ l) st) (hnew : ∀ a ∈ new, isServed a = false) :
    Settled (new ++ l) := by
  rcases h with hanswered | ⟨op, hop⟩
  · left
    rintro ⟨post, m, left, q, pre, heq, hpost, hne⟩
    -- The call is in the old part, because the new one has none.
    obtain ⟨mid, rfl, rfl⟩ : ∃ mid, post = new ++ mid ∧ l = mid ++ .served m left q :: pre := by
      rcases List.append_eq_append_iff.mp heq with ⟨mid, rfl, rfl⟩ | ⟨mid, rfl, hmid⟩
      · exact ⟨mid, rfl, rfl⟩
      · cases mid with
        | nil => exact ⟨[], by simp, by simpa using hmid.symm⟩
        | cons x mid =>
            obtain ⟨rfl, -⟩ := List.cons.inj hmid
            exact absurd (hnew _ (List.mem_append_right _ List.mem_cons_self)) (by simp [isServed])
    have hold : writtenIn mid = q := by
      by_contra hq
      exact hanswered ⟨mid, m, left, q, pre, rfl, fun x hx => hpost x (by simp [hx]), hq⟩
    -- Every message of the reply was written before, so no other was written since.
    rw [← List.append_assoc] at htrace
    have hall := htrace.written hpost
    rw [writtenIn_append, hold, List.append_assoc, List.append_right_eq_self,
      List.append_eq_nil_iff] at hall
    rw [writtenIn_append, hold, hall.1, List.append_nil] at hne
    exact hne rfl
  · exact Or.inr ⟨op, List.mem_append_right new hop⟩

/-- The invariant of the runs in which no read completes behind a queued expiry. -/
structure Punctual (s : Cycle) : Prop where
  phase : Phase s
  timely : Timely s
  late : s.timedOut = true → Settled s.log

/-- Before it is timed out, a connection that does not write has no reply under way. -/
theorem Punctual.settled {s : Cycle} (h : Punctual s) (hs : ¬ Writing s) : Settled s.log := by
  cases htimed : s.timedOut with
  | true => exact h.late htimed
  | false =>
      cases h.phase with
      | ended st hpending htrace hquiet hends =>
          rcases hends with hst | htimed' | hfailed
          · exact Or.inl (not_unanswered htrace hst)
          · exact absurd htimed' (by simp [htimed])
          · exact Or.inr hfailed
      | waiting op st hpending hhalt htrace hawaits hquiet hopen =>
          left
          refine not_unanswered htrace ?_
          -- The operation is no write, so it fits only a stage without messages.
          cases op with
          | handshake | readHeader =>
              cases st with
              | answering q => exact hawaits.1
              | gotHeader | gotPayload => exact hawaits.elim
          | readPayload =>
              cases st with
              | gotHeader => rfl
              | answering | gotPayload => exact hawaits.elim
          | writeHeader => exact absurd (Or.inl (by simp [hpending])) hs
          | writeMessage last => exact absurd (Or.inr ⟨last, by simp [hpending]⟩) hs

/-- One event. An expiry is delivered only to the read that it was armed for. -/
theorem punctual_step (env : Env) (s : Cycle) (e : Cycle.Event) (h : Punctual s)
    (hclear : Clear s e) : Punctual (Cycle.step env s e) where
  phase := phase_step env s e h.phase
  timely := timely_step env s e h.timely h.phase hclear
  late := by
    intro htimed
    obtain ⟨st, htrace⟩ := (phase_step env s e h.phase).trace
    cases hbefore : s.timedOut with
    | true =>
        obtain ⟨new, hlog, hnew⟩ := @late_noCall env s hbefore e
        rw [hlog] at htrace ⊢
        exact (h.late hbefore).append htrace hnew
    | false =>
        -- An expiry was delivered, and none is queued while a reply is written.
        rcases step_timedOut env s e with hkept | ⟨k, wait, rfl, hk⟩
        · exact absurd (hkept.symm.trans htimed) (by simp [hbefore])
        · have hnot : ¬ Writing s := fun hw =>
            absurd ((h.timely.writing hw).1.queued wait _ (List.mem_of_getElem? hk)) (by simp)
          obtain ⟨new, hlog, hnew⟩ := deliver_noCall env s k
          rw [hlog] at htrace ⊢
          exact (h.settled hnot).append htrace hnew

/-- A reply that is under way goes on to be written. -/
theorem Punctual.keepsAnswering {s : Cycle} (h : Punctual s) : KeepsAnswering s := by
  intro hunanswered hfailed
  have hnot : ¬ Settled s.log := by
    rintro (hanswered | ⟨op, hop⟩)
    · exact hanswered hunanswered
    · exact hfailed op hop
  have hwriting : Writing s := by
    by_contra hs
    exact hnot (h.settled hs)
  obtain ⟨-, htimed⟩ := h.timely.writing hwriting
  cases h.phase with
  | ended st hpending => exact absurd hwriting (not_writing_of_nil hpending)
  | waiting op st hpending hhalt htrace hawaits hquiet hopen =>
      exact ⟨hwriting, hhalt, htimed, hopen htimed⟩

/-- An expiry that is delivered is fresh. -/
theorem Timely.expiryFresh {s : Cycle} (h : Timely s) (e : Cycle.Event) : ExpiryFresh s e := by
  rintro k wait rfl hk
  exact (h.fresh.queued wait _ (List.mem_of_getElem? hk)).2 rfl

/-- A connection begins without a wait. -/
theorem punctual_start (w : World) (isAuth isSynced : Bool) (ip stream : Bytes) :
    Punctual (Cycle.start w isAuth isSynced ip stream) where
  phase := phase_start w isAuth isSynced ip stream
  timely := by
    refine timely_of_not_writing ⟨?_, ?_⟩ ?_
    · rintro wait hwait
      obtain rfl := Option.some.inj hwait
      exact ⟨rfl, rfl⟩
    · intro wait r hr
      exact absurd hr (List.not_mem_nil)
    · exact not_writing_of_read rfl (Or.inr (Or.inr rfl))
  late := fun h => absurd h (by simp [Cycle.start])

/-- A stale expiry never drops a live request in a run in which no read completes behind a
queued expiry. Every expiry that is delivered belongs to a wait since which no read has
completed, and a request that was applied stays on its way to be answered in full, unless an
operation on the socket fails. -/
theorem stale_timer_harmless {env : Env} {w : World} {isAuth isSynced : Bool} {ip stream : Bytes}
    {es : List Cycle.Event}
    (hclear : Along (Cycle.step env) Clear (Cycle.start w isAuth isSynced ip stream) es) :
    Along (Cycle.step env) (fun s e => ExpiryFresh s e ∧ KeepsAnswering s)
        (Cycle.start w isAuth isSynced ip stream) es ∧
      KeepsAnswering (run (Cycle.step env) (Cycle.start w isAuth isSynced ip stream) es) := by
  obtain ⟨hrun, halong⟩ := invariant (punctual_start w isAuth isSynced ip stream)
    (punctual_step env) hclear
  refine ⟨?_, hrun.keepsAnswering⟩
  rw [along_iff] at halong ⊢
  intro pre e post hes
  have hpunctual := halong pre e post hes
  exact ⟨hpunctual.timely.expiryFresh e, hpunctual.keepsAnswering⟩

/-- The events of a client that sends a KEEP_ALIVE. The deadline of the wait for its payload
passes when the payload has just arrived: the expiry is queued, and then the read completes. -/
def expiryBeforePayload : List Cycle.Event :=
  [.succeed 0 fun _ => true, .succeed 0 fun _ => true, .expire, .succeed 0 fun _ => true]

/-- The connection of that client. -/
def keepAliveStart : Cycle :=
  Cycle.start (World.ofDisk Disk.empty) false false [] (frame keepAlive)

/-- The client's request is served, and then the stale expiry ends the connection before the
reply is written. -/
theorem not_stale_timer_harmless :
    ¬ ExpiryFresh (run (Cycle.step (Env.ofTables [] none [] [])) keepAliveStart
        expiryBeforePayload) (.deliver 2) ∧
      ¬ KeepsAnswering (run (Cycle.step (Env.ofTables [] none [] [])) keepAliveStart
        (expiryBeforePayload ++ [.deliver 2])) := by
  constructor
  · intro h
    exact absurd (h 2 ⟨1⟩ rfl (by decide +kernel)) (by decide +kernel)
  · intro h
    have hlog : (run (Cycle.step (Env.ofTables [] none [] [])) keepAliveStart
        (expiryBeforePayload ++ [.deliver 2])).log =
        [.shutdown, .started .writeHeader,
          .served keepAlive [Message.ofType MsgType.none.toByte] [keepAliveRejected],
          .completed .readPayload, .started .readPayload, .completed .readHeader,
          .started .readHeader, .completed .handshake, .started .handshake] := by decide +kernel
    obtain ⟨-, -, htimed, -⟩ := h
      ⟨[.shutdown, .started .writeHeader], _, _, _, _, hlog, by decide, by decide⟩
      (fun op hop => by
        rw [hlog] at hop
        simp at hop)
    exact absurd htimed (by decide +kernel)

/-- Without the stale expiry the request is on its way to be answered. -/
theorem stale_timer_harmless_keepAlive :
    KeepsAnswering (run (Cycle.step (Env.ofTables [] none [] [])) keepAliveStart
      [.succeed 0 fun _ => true, .succeed 0 fun _ => true, .succeed 0 fun _ => true]) := by
  have hclear : Along (Cycle.step (Env.ofTables [] none [] [])) Clear keepAliveStart
      [.succeed 0 fun _ => true, .succeed 0 fun _ => true, .succeed 0 fun _ => true] :=
    ⟨by decide +kernel, by decide +kernel, by decide +kernel, trivial⟩
  exact (stale_timer_harmless hclear).2

end RemoteBackup.Proofs
