import RemoteBackup.Proofs.BufferBounds
import RemoteBackup.Proofs.Passwords
import RemoteBackup.Proofs.Signs

/-!
# `RemoteBackup.Proofs.Halts`: how the checks of a request stop the process

The checks read views, signs, passwords and the session. All of these but the sign parser fail
only by an access that the language leaves undefined.

* `taskOf_stop_iff`: of the two other ways to stop, the checks have one, a sign without a
  separator.
* `stops_taskOf_iff`: a well-formed request stops them in two ways more, an empty password and a
  transfer of a session without a directory.
-/

set_option autoImplicit false

namespace RemoteBackup.Proofs

open Lib

/-- A view on a TLV is valid. -/
theorem nextTlv_valid {v v' : TlvView} (h : v.nextTlv = .ok (true, v')) : v'.valid_ = true := by
  obtain ⟨-, k, t, b0, b1, b2, b3, -, -, -, -, -, -, -, -, hvalid, -⟩ := nextTlv_true h
  exact hvalid

/-- A valid view has a type. -/
theorem tlvType_of_valid {v : TlvView} (h : v.valid_ = true) : v.tlvType = .ok v.tlvType_ := by
  rw [TlvView.tlvType, if_pos h]

/-- The value of a valid view is read, or lies outside of the buffer. -/
theorem onlyUndefined_value {v : TlvView} (h : v.valid_ = true) : OnlyUndefined v.value := by
  intro e he
  rw [TlvView.value, if_pos h] at he
  split at he
  · cases he
  · exact (Except.error.inj he).symm

/-- The test for the next TLV returns, or reads outside of the buffer. -/
theorem onlyUndefined_nextIs (v : TlvView) (t : TlvType) : OnlyUndefined (v.nextIs t) := by
  refine (onlyUndefined_nextTlv v).bind fun (more, v') hnext => ?_
  cases more with
  | false => exact onlyUndefined_ok _
  | true =>
      -- A TLV that was found has a type.
      simp only [if_true, tlvType_of_valid (nextTlv_valid hnext)]
      exact onlyUndefined_ok _

/-- The view behind a TLV that has the type in question can be read. -/
theorem nextIs_valid {v v' : TlvView} {t : TlvType} (h : v.nextIs t = .ok (true, v')) :
    v'.valid_ = true := by
  unfold TlvView.nextIs at h
  cases hnext : v.nextTlv with
  | error e => simp [hnext, bind, Except.bind] at h
  | ok next =>
      obtain ⟨more, v1⟩ := next
      cases more with
      | false => simp [hnext, bind, Except.bind, pure, Except.pure] at h
      | true =>
          have hvalid := nextTlv_valid hnext
          simp only [hnext, tlvType_of_valid hvalid, bind, Except.bind, if_true, pure, Except.pure,
            Except.ok.injEq, Prod.mk.injEq] at h
          rwa [← h.2]

/-- The scan for the END returns, or reads outside of the buffer. Induction on the bytes to go. -/
theorem onlyUndefined_verifyEndFrom (raw : Bytes) (k : Nat) (ptr : Int) :
    OnlyUndefined (TlvView.verifyEndFrom raw k ptr) := by
  induction k generalizing ptr with
  | zero => exact (onlyUndefined_readAt raw ptr).bind fun b _ => onlyUndefined_ok _
  | succ k ih =>
      refine (onlyUndefined_readAt raw ptr).bind fun b _ => ?_
      split
      · exact onlyUndefined_ok _
      · exact ih _

/-- So does `verify_end`. -/
theorem onlyUndefined_verifyEnd (v : TlvView) : OnlyUndefined v.verifyEnd :=
  onlyUndefined_verifyEndFrom v.raw 4 _

/-- A session has a directory, or its empty pointer is followed. -/
theorem onlyUndefined_dirPtr (u : User) : OnlyUndefined u.dirPtr := by
  intro e he
  unfold User.dirPtr at he
  split at he
  · cases he
  · exact (Except.error.inj he).symm

/-- A password is compared, or it is empty and its hash reads outside of it. -/
theorem onlyUndefined_verifyPassword (env : Env) (username password : Bytes) :
    OnlyUndefined (verifyPassword env username password) := by
  have hhash : OnlyUndefined (sha512Hash env password) := by
    intro e he
    unfold sha512Hash at he
    split at he
    · exact (Except.error.inj he).symm
    · cases he
  refine hhash.bind fun digest _ => ?_
  split <;> exact onlyUndefined_ok _

/-! ### The checks of a request -/

/-- A task that stops the process by undefined behavior, if it stops it. -/
def StopsUndefined (t : Task) : Prop := ∀ e, t = .stop e → e = .undefinedBehavior

/-- A check in front that fails by undefined behavior only. -/
theorem stopsUndefined_check {α : Type} {x : Except Halt α} {k : α → Task} (hx : OnlyUndefined x)
    (hk : ∀ a, x = .ok a → StopsUndefined (k a)) : StopsUndefined (check x k) := by
  intro e h
  cases hcase : x with
  | ok a =>
      rw [hcase] at h
      exact hk a hcase e h
  | error e' =>
      rw [hcase] at h
      cases h
      exact hx e hcase

/-- A task that does not stop. -/
theorem stopsUndefined_of_ne {t : Task} (h : ∀ e, t ≠ .stop e) : StopsUndefined t :=
  fun e he => absurd he (h e)

/-- The checks of an AUTH. -/
theorem authTask_stops (env : Env) {view : TlvView} (hvalid : view.valid_ = true)
    (replies : MessageQueue) : StopsUndefined (authTask env view replies) := by
  unfold authTask
  rw [tlvType_of_valid hvalid]
  refine stopsUndefined_check (onlyUndefined_ok _) fun tlvType _ => ?_
  split
  · exact stopsUndefined_of_ne (by simp)
  refine stopsUndefined_check (onlyUndefined_value hvalid) fun username _ => ?_
  refine stopsUndefined_check (onlyUndefined_nextIs view .pswd) fun next hnext => ?_
  obtain ⟨isPswd, view'⟩ := next
  cases isPswd with
  | false => exact stopsUndefined_of_ne (by simp)
  | true =>
      refine stopsUndefined_check (onlyUndefined_value (nextIs_valid hnext)) fun password _ => ?_
      refine stopsUndefined_check (onlyUndefined_verifyPassword env username password)
        fun verified _ => ?_
      split <;> exact stopsUndefined_of_ne (by simp)

/-- The first TLV is an ITEM whose value has no separator. -/
def BadItem (view : TlvView) : Prop :=
  view.tlvType_ = TlvType.item.toByte ∧ ∃ sign, view.value = .ok sign ∧ nul ∉ sign

/-- What the three transfer handlers begin with: an ITEM, its value, and the parts of the sign. -/
theorem signedCheck_stop_iff {view : TlvView} (hvalid : view.valid_ = true) {replies : MessageQueue}
    {err : ErrType} {k : Bytes → Path × Bytes → Task}
    (hk : ∀ sign pair, StopsUndefined (k sign pair)) {e : Halt} (he : e ≠ .undefinedBehavior) :
    (check view.tlvType fun tlvType =>
      if tlvType ≠ TlvType.item.toByte then .refuse replies err else
      check view.value fun sign => check (splitSign sign) (k sign)) = .stop e ↔
      e = .uncaughtException ∧ BadItem view := by
  rw [tlvType_of_valid hvalid]
  simp only [check, BadItem]
  by_cases hitem : view.tlvType_ = TlvType.item.toByte
  · rw [if_neg (not_not.mpr hitem)]
    cases hvalue : view.value with
    | error e' =>
        have hub := onlyUndefined_value hvalid e' hvalue
        simp only [Task.stop.injEq, reduceCtorEq, false_and, exists_false, and_false, iff_false]
        rintro rfl
        exact he hub
    | ok sign =>
        cases hsplit : splitSign sign with
        | error e' =>
            -- The one exception of the checks.
            obtain ⟨rfl, hnul⟩ := (splitSign_error_iff sign e').mp hsplit
            simp [hsplit, hitem, hnul, eq_comm]
        | ok pair =>
            have hnul : nul ∈ sign := by
              by_contra hnul
              rw [(splitSign_error_iff sign _).mpr ⟨rfl, hnul⟩] at hsplit
              cases hsplit
            simp only [hsplit, Except.ok.injEq, exists_eq_left', hnul, not_true_eq_false,
              and_false, iff_false]
            exact fun h => he (hk sign pair e h)
  · rw [if_pos hitem]
    simp [hitem]

/-- What CREATE and UPDATE go on with: a CONTENT and the user's directory. -/
theorem stopsUndefined_contentCheck {view : TlvView} {u : User} {replies : MessageQueue}
    {err : ErrType} {k : Bool × TlvView → Dir → Task}
    (hk : ∀ next dir, StopsUndefined (k next dir)) :
    StopsUndefined (check (view.nextIs .content) fun next =>
      if !next.1 then .refuse replies err else check u.dirPtr (k next)) := by
  refine stopsUndefined_check (onlyUndefined_nextIs view .content) fun next _ => ?_
  split
  · exact stopsUndefined_of_ne (by simp)
  · exact stopsUndefined_check (onlyUndefined_dirPtr u) fun dir _ => hk next dir

/-- The checks of a CREATE let an exception through for one reason, an ITEM without a separator. -/
theorem createTask_stop_iff (env : Env) (u : User) {view : TlvView} (hvalid : view.valid_ = true)
    (replies : MessageQueue) {e : Halt} (he : e ≠ .undefinedBehavior) :
    createTask env u view replies = .stop e ↔ e = .uncaughtException ∧ BadItem view := by
  refine signedCheck_stop_iff hvalid (fun sign pair => ?_) he
  refine stopsUndefined_contentCheck fun next dir => ?_
  split <;> exact stopsUndefined_of_ne (by simp)

/-- So do those of an UPDATE. -/
theorem updateTask_stop_iff (env : Env) (u : User) {view : TlvView} (hvalid : view.valid_ = true)
    (replies : MessageQueue) {e : Halt} (he : e ≠ .undefinedBehavior) :
    updateTask env u view replies = .stop e ↔ e = .uncaughtException ∧ BadItem view := by
  refine signedCheck_stop_iff hvalid (fun sign pair => ?_) he
  refine stopsUndefined_contentCheck fun next dir => ?_
  split
  · exact stopsUndefined_of_ne (by simp)
  · split <;> exact stopsUndefined_of_ne (by simp)

/-- So do those of an ERASE. -/
theorem eraseTask_stop_iff (env : Env) (u : User) {view : TlvView} (hvalid : view.valid_ = true)
    (replies : MessageQueue) {e : Halt} (he : e ≠ .undefinedBehavior) :
    eraseTask env u view replies = .stop e ↔ e = .uncaughtException ∧ BadItem view := by
  refine signedCheck_stop_iff hvalid (fun sign pair => ?_) he
  refine stopsUndefined_check (onlyUndefined_dirPtr u) fun dir _ => ?_
  split
  · exact stopsUndefined_of_ne (by simp)
  · split <;> exact stopsUndefined_of_ne (by simp)

/-- A request that goes to one of the three transfer handlers has a sign without a separator. -/
def BadSign (u : User) (m : Message) : Prop :=
  ∃ msgType view, m.msgType = some msgType ∧ (TlvView.ofMessage m).nextTlv = .ok (true, view) ∧
    (route u msgType = .create ∨ route u msgType = .update ∨ route u msgType = .erase) ∧
    BadItem view

/-- Undefined behavior apart, the checks of a request stop the process in one way. -/
theorem taskOf_stop_iff (env : Env) (u : User) (m : Message) {e : Halt}
    (he : e ≠ .undefinedBehavior) :
    taskOf env u m = .stop e ↔ e = .uncaughtException ∧ BadSign u m := by
  unfold taskOf BadSign
  cases htype : m.msgType with
  | none => simp [Ne.symm he]
  | some msgType =>
      cases hnext : (TlvView.ofMessage m).nextTlv with
      | error e' =>
          obtain rfl := onlyUndefined_nextTlv _ _ hnext
          simp [check, Ne.symm he]
      | ok next =>
          obtain ⟨more, view⟩ := next
          cases more with
          | false => simp [check]
          | true =>
              have hvalid := nextTlv_valid hnext
              have hauth : ∀ replies, authTask env view replies ≠ .stop e :=
                fun replies h => he (authTask_stops env hvalid replies e h)
              cases hroute : route u msgType <;>
                simp [check, hroute, hauth, createTask_stop_iff, updateTask_stop_iff,
                  eraseTask_stop_iff, hvalid, he]

/-- No check calls `std::exit`. -/
theorem taskOf_ne_exit (env : Env) (u : User) (m : Message) :
    taskOf env u m ≠ .stop .exitFailure := by
  rw [ne_eq, taskOf_stop_iff env u m (by simp)]
  simp

/-! ### The view that a transfer reads its content from -/

/-- A property that every task of the checks has which has a view. -/
theorem Checked.view_of {P : Task → Prop} {Q : TlvView → Prop} {t : Task} (h : Checked P t)
    (hP : ∀ t, P t → ∀ v, t.view = some v → Q v) {v : TlvView} (hv : t.view = some v) : Q v := by
  cases h with
  | stop e => cases hv
  | refuse replies err => cases hv
  | passed t ht => exact hP t ht v hv

/-- It stands at the CONTENT behind the first TLV. -/
theorem view_of_task {env : Env} {u : User} {m : Message} {v : TlvView}
    (h : (taskOf env u m).view = some v) : ∃ first,
      (TlvView.ofMessage m).nextTlv = .ok (true, first) ∧
        first.nextIs .content = .ok (true, v) := by
  unfold taskOf at h
  cases htype : m.msgType with
  | none => simp [htype, Task.view] at h
  | some msgType =>
      cases hnext : (TlvView.ofMessage m).nextTlv with
      | error e => simp [htype, hnext, check, Task.view] at h
      | ok next =>
          obtain ⟨more, view⟩ := next
          cases more with
          | false => simp [htype, hnext, check, Task.view] at h
          | true =>
              refine ⟨view, rfl, ?_⟩
              simp only [htype, hnext, check, Bool.not_true, Bool.false_eq_true, if_false] at h
              cases hroute : route u msgType with
              | rejected | sync | keepAlive => simp [hroute, Task.view] at h
              | auth =>
                  rw [hroute] at h
                  refine (authTask_checked env view _).view_of
                    (Q := fun v => view.nextIs .content = .ok (true, v)) ?_ h
                  rintro t ⟨_, _, -, -, rfl⟩ v hv
                  cases hv
              | create =>
                  rw [hroute] at h
                  refine (createTask_checked env u view _).view_of
                    (Q := fun v => view.nextIs .content = .ok (true, v)) ?_ h
                  rintro t ⟨_, _, _, view', _, -, -, hview, -, -, rfl⟩ v hv
                  cases hv
                  exact hview
              | update =>
                  rw [hroute] at h
                  refine (updateTask_checked env u view _).view_of
                    (Q := fun v => view.nextIs .content = .ok (true, v)) ?_ h
                  rintro t ⟨_, _, _, view', _, _, -, -, hview, -, -, -, rfl⟩ v hv
                  cases hv
                  exact hview
              | erase =>
                  rw [hroute] at h
                  refine (eraseTask_checked env u view _).view_of
                    (Q := fun v => view.nextIs .content = .ok (true, v)) ?_ h
                  rintro t ⟨_, _, _, _, _, -, -, -, -, -, rfl⟩ v hv
                  cases hv

/-- So it can be read. -/
theorem view_valid_of_task {env : Env} {u : User} {m : Message} {v : TlvView}
    (h : (taskOf env u m).view = some v) : v.valid_ = true := by
  obtain ⟨first, -, hcontent⟩ := view_of_task h
  exact nextIs_valid hcontent

/-! ### Well-formed requests -/

/-- The task stops the process. -/
def Stops (t : Task) : Prop := ∃ e, t = .stop e

/-- A refusal is an answer. -/
@[simp] theorem not_stops_refuse (replies : MessageQueue) (err : ErrType) :
    ¬ Stops (.refuse replies err) := by
  rintro ⟨e, h⟩
  cases h

/-- A check stops the process when it fails, and where it leads to. -/
@[simp] theorem stops_check_iff {α : Type} {x : Except Halt α} {k : α → Task} :
    Stops (check x k) ↔ ∀ a, x = .ok a → Stops (k a) := by
  cases x with
  | ok a => simp [check]
  | error e => simp [check, Stops]

/-- In front of a list of TLVs the test for a type returns, and what it finds has a value. -/
theorem nextIs_of_yields {v v' : TlvView} {tlvs : List (UInt8 × Bytes)} (h : Yields v tlvs v')
    (t : TlvType) : ∃ found v1, v.nextIs t = .ok (found, v1) ∧
      (found = true → ∃ bytes, v1.value = .ok bytes) := by
  unfold TlvView.nextIs
  cases h with
  | done hnext =>
      rw [hnext]
      exact ⟨false, _, rfl, by simp⟩
  | @next _ v1 _ t' length bytes tlvs hnext htype hlength hlen hvalue hrest =>
      simp only [hnext, bind, Except.bind, if_true, htype]
      exact ⟨_, v1, rfl, fun _ => ⟨bytes, hvalue⟩⟩

/-- Behind a user name comes an empty password. -/
def EmptyPassword (view : TlvView) : Prop :=
  view.tlvType_ = TlvType.usrn.toByte ∧
    ∃ view', view.nextIs .pswd = .ok (true, view') ∧ view'.value = .ok []

/-- The login stops the process on an empty password, whose hash reads past its end. -/
theorem stops_authTask_iff (env : Env) {view v' : TlvView} {tlvs : List (UInt8 × Bytes)}
    {username : Bytes} (hvalue : view.value = .ok username) (hrest : Yields view tlvs v')
    (hvalid : view.valid_ = true) (replies : MessageQueue) :
    Stops (authTask env view replies) ↔ EmptyPassword view := by
  unfold EmptyPassword
  obtain ⟨found, view', hnext, hpassword⟩ := nextIs_of_yields hrest .pswd
  simp only [authTask, stops_check_iff, tlvType_of_valid hvalid, hvalue, hnext, Except.ok.injEq,
    forall_eq']
  by_cases husrn : view.tlvType_ = TlvType.usrn.toByte
  · cases found with
    | false => simp [husrn]
    | true =>
        obtain ⟨password, hpassword⟩ := hpassword rfl
        -- The hash is the only part of the comparison that can fail.
        have hverify : (∀ verified, verifyPassword env username password = .ok verified →
            Stops (if verified = true then .authenticate username replies
              else .refuse replies .authFailed)) ↔ password = [] := by
          by_cases hempty : password = []
          · simp [hempty, verifyPassword, sha512Hash, bind, Except.bind]
          · obtain ⟨verified, hverified⟩ := (@verifyPassword_returns_iff env username password).mpr
              hempty
            rw [hverified]
            cases verified <;> simp [hempty, Stops]
        simpa only [husrn, ne_eq, not_true_eq_false, if_false, stops_check_iff, hnext,
          Except.ok.injEq, forall_eq', Bool.not_true, Bool.false_eq_true, hpassword,
          Prod.mk.injEq, true_and, exists_eq_left'] using hverify
  · simp [husrn]

/-- The first TLV is an ITEM whose value has a separator. -/
def SignedItem (view : TlvView) : Prop :=
  view.tlvType_ = TlvType.item.toByte ∧ ∃ sign, view.value = .ok sign ∧ nul ∈ sign

/-- The beginning of the three transfer handlers stops the process on an ITEM without a separator,
and where it leads to. -/
theorem stops_signedCheck_iff {view : TlvView} (hvalid : view.valid_ = true) {value : Bytes}
    (hvalue : view.value = .ok value) {replies : MessageQueue} {err : ErrType}
    {k : Bytes → Path × Bytes → Task} {P : Prop} (hk : ∀ sign pair, Stops (k sign pair) ↔ P) :
    Stops (check view.tlvType fun tlvType =>
      if tlvType ≠ TlvType.item.toByte then .refuse replies err else
      check view.value fun sign => check (splitSign sign) (k sign)) ↔
      BadItem view ∨ SignedItem view ∧ P := by
  unfold BadItem SignedItem
  simp only [stops_check_iff, tlvType_of_valid hvalid, hvalue, Except.ok.injEq, forall_eq',
    exists_eq_left']
  by_cases hitem : view.tlvType_ = TlvType.item.toByte
  · simp only [hitem, ne_eq, not_true_eq_false, if_false, true_and, stops_check_iff,
      Except.ok.injEq, forall_eq', hk]
    cases hsplit : splitSign value with
    | error e => simp [((splitSign_error_iff value e).mp hsplit).2]
    | ok pair =>
        have hnul : nul ∈ value := by
          by_contra hnul
          rw [(splitSign_error_iff value _).mpr ⟨rfl, hnul⟩] at hsplit
          cases hsplit
        simp [hnul]
  · simp [hitem]

/-- What CREATE and UPDATE go on with stops the process where the session has no directory. -/
theorem stops_contentCheck_iff {view v' : TlvView} {tlvs : List (UInt8 × Bytes)}
    (hrest : Yields view tlvs v') {u : User} {replies : MessageQueue} {err : ErrType}
    {k : Bool × TlvView → Dir → Task} (hk : ∀ next dir, ¬ Stops (k next dir)) :
    Stops (check (view.nextIs .content) fun next =>
      if !next.1 then .refuse replies err else check u.dirPtr (k next)) ↔
      u.dir = none ∧ ∃ view', view.nextIs .content = .ok (true, view') := by
  obtain ⟨found, view', hnext, -⟩ := nextIs_of_yields hrest .content
  simp only [stops_check_iff, hnext, Except.ok.injEq, forall_eq']
  cases found with
  | false => simp
  | true => cases hdir : u.dir <;> simp [User.dirPtr, hdir, hk]

/-- The session presents an empty password. -/
def NoPassword (u : User) (m : Message) : Prop :=
  ∃ msgType view, m.msgType = some msgType ∧ (TlvView.ofMessage m).nextTlv = .ok (true, view) ∧
    route u msgType = .auth ∧ EmptyPassword view

/-- The session has no directory, and its request is a signed ERASE, or a CREATE or UPDATE that is
signed and brings a CONTENT. -/
def Homeless (u : User) (m : Message) : Prop :=
  u.dir = none ∧ ∃ msgType view, m.msgType = some msgType ∧
    (TlvView.ofMessage m).nextTlv = .ok (true, view) ∧ SignedItem view ∧
    (route u msgType = .erase ∨ (route u msgType = .create ∨ route u msgType = .update) ∧
      ∃ view', view.nextIs .content = .ok (true, view'))

/-- The checks of a well-formed request stop the process in three ways. -/
theorem stops_taskOf_iff (env : Env) (u : User) {m : Message} (hm : WellFormed m) :
    Stops (taskOf env u m) ↔ BadSign u m ∨ NoPassword u m ∨ Homeless u m := by
  obtain ⟨msgType, tlvs, hlens, rfl⟩ := hm
  obtain ⟨v', hyields, -⟩ := yields_encode msgType hlens
  have htype : (encode msgType tlvs).msgType = some msgType := by
    rw [Message.msgType, encode_raw]
    rfl
  unfold taskOf BadSign NoPassword Homeless
  simp only [htype]
  cases hyields with
  | done hnext => simp [hnext]
  | @next _ view _ t length value tlvs hnext ht hlength hlen hvalue hrest =>
      have hvalid := nextTlv_valid hnext
      have hauth := stops_authTask_iff env hvalue hrest hvalid (MessageQueue.ofType msgType)
      have hcreate : Stops (createTask env u view (MessageQueue.ofType msgType)) ↔ BadItem view ∨
          SignedItem view ∧ u.dir = none ∧ ∃ view', view.nextIs .content = .ok (true, view') := by
        refine stops_signedCheck_iff hvalid hvalue fun sign pair => ?_
        refine stops_contentCheck_iff hrest fun next dir => ?_
        split <;> simp [Stops]
      have hupdate : Stops (updateTask env u view (MessageQueue.ofType msgType)) ↔ BadItem view ∨
          SignedItem view ∧ u.dir = none ∧ ∃ view', view.nextIs .content = .ok (true, view') := by
        refine stops_signedCheck_iff hvalid hvalue fun sign pair => ?_
        refine stops_contentCheck_iff hrest fun next dir => ?_
        split
        · simp
        · split <;> simp [Stops]
      have herase : Stops (eraseTask env u view (MessageQueue.ofType msgType)) ↔ BadItem view ∨
          SignedItem view ∧ u.dir = none := by
        refine stops_signedCheck_iff hvalid hvalue fun sign pair => ?_
        cases hdir : u.dir with
        | none => simp [User.dirPtr, hdir]
        | some dir =>
            simp only [stops_check_iff, User.dirPtr, hdir, Except.ok.injEq, forall_eq',
              reduceCtorEq, iff_false]
            split
            · simp
            · split <;> simp [Stops]
      simp only [hnext, stops_check_iff, Except.ok.injEq, forall_eq', Bool.not_true,
        Bool.false_eq_true, if_false, Option.some.injEq, exists_eq_left', Prod.mk.injEq, true_and,
        exists_and_left]
      cases hroute : route u msgType with
      | rejected | sync | keepAlive => simp [Stops]
      | auth => simp [hauth]
      | create => simp [hcreate, and_left_comm]
      | update => simp [hupdate, and_left_comm]
      | erase => simp [herase, and_comm]

/-- A read inside the buffer returns. -/
theorem readAt_of_lt {raw : Bytes} {i : Int} (hi : 0 ≤ i) (hlt : i < raw.length) :
    ∃ b, readAt raw i = .ok b := by
  rw [readAt, if_pos hi, List.getElem?_eq_getElem (by omega)]
  exact ⟨_, rfl⟩

/-- The look for an END returns in a buffer that has the five bytes of one. Induction on the zero
bytes that are left to see. -/
theorem verifyEndFrom_returns {raw : Bytes} (k : Nat) {ptr : Int} (hk : (k : Int) ≤ ptr)
    (hptr : ptr < raw.length) : ∃ isLast, TlvView.verifyEndFrom raw k ptr = .ok isLast := by
  induction k generalizing ptr with
  | zero =>
      obtain ⟨b, hb⟩ := readAt_of_lt (by omega) hptr
      exact ⟨_, by rw [TlvView.verifyEndFrom, hb]; rfl⟩
  | succ k ih =>
      obtain ⟨b, hb⟩ := readAt_of_lt (by omega) hptr
      rw [TlvView.verifyEndFrom, hb]
      by_cases hzero : b = 0
      · simpa [hzero, bind, Except.bind] using @ih (ptr - 1) (by omega) (by omega)
      · exact ⟨false, by simp [hzero, bind, Except.bind, pure, Except.pure]⟩

/-- The content of a well-formed transfer can be read, and its END can be looked for. -/
theorem content_of_task {env : Env} {u : User} {m : Message} (hm : WellFormed m) {v : TlvView}
    (h : (taskOf env u m).view = some v) :
    (∃ content, v.value = .ok content) ∧ ∃ isLast, v.verifyEnd = .ok isLast := by
  obtain ⟨msgType, tlvs, hlens, rfl⟩ := hm
  obtain ⟨first, hfirst, hcontent⟩ := view_of_task h
  obtain ⟨v', hyields, -⟩ := yields_encode msgType hlens
  cases hyields with
  | done hnext => exact absurd (hfirst.symm.trans hnext) (by simp)
  | @next _ view _ t length value tlvs hnext ht hlength hlen hvalue hrest =>
      obtain rfl : first = view := by simpa using hfirst.symm.trans hnext
      constructor
      · obtain ⟨found, v1, hnextIs, hread⟩ := nextIs_of_yields hrest .content
        obtain ⟨rfl, rfl⟩ : true = found ∧ v = v1 := by simpa using hcontent.symm.trans hnextIs
        exact hread rfl
      · have hraw : v.raw = (encode msgType ((t, value) :: tlvs)).raw :=
          (nextIs_raw hcontent).trans (nextTlv_raw hfirst)
        have hlong : 5 ≤ v.raw.length := by
          rw [hraw, encode_raw, List.flatMap_cons, segment]
          simp only [List.length_cons, List.length_append, Message.lengthBytes,
            List.length_map, List.length_range]
          omega
        exact verifyEndFrom_returns 4 (by omega) (by omega)

end RemoteBackup.Proofs
