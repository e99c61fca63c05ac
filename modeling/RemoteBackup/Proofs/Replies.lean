import RemoteBackup.Proofs.Transfers

/-!
# `RemoteBackup.Proofs.Replies`: the shape of every reply

`Carries q tlvs` says that the messages of a queue are encodings of consecutive parts of
`tlvs`, at least one, all under the type of the queue. Every `add_TLV` extends the last part
or starts the next one (`Carries.addTLV`).

* `taskOf_itemized`: the queue with which the checks of a request end.
* `Closes`: an outcome whose reply is that queue, closed once. It holds for every end of
  every handler but SYNC.
* `handleSync_closes`: SYNC queues one ITEM for each file, by induction on the traversal, and
  starts a new queue when an exception is caught.
* `reply_shape`: all requests.
-/

set_option autoImplicit false

namespace RemoteBackup.Proofs

open Lib

/-! ### Queues -/

/-- The messages of the queue are encodings of consecutive parts of these TLVs, at least
one. -/
def Carries (q : MessageQueue) (tlvs : List (UInt8 × Bytes)) : Prop :=
  ∃ parts : List (List (UInt8 × Bytes)), parts ≠ [] ∧ q.msgs = parts.map (encode q.msgType) ∧
    parts.flatten = tlvs

/-- One more TLV behind those of a message is one more `add_TLV`. -/
theorem encode_append (msgType : UInt8) (tlvs : List (UInt8 × Bytes)) (p : UInt8 × Bytes) :
    encode msgType (tlvs ++ [p]) = (encode msgType tlvs).addTLV p.1 p.2 := by
  simp [encode]

/-- Every message of the queue has its type. -/
theorem Carries.msgType {q : MessageQueue} {tlvs : List (UInt8 × Bytes)} (h : Carries q tlvs)
    {m : Message} (hm : m ∈ q.msgs) : m.msgType = some q.msgType := by
  obtain ⟨parts, -, hmsgs, -⟩ := h
  rw [hmsgs] at hm
  obtain ⟨part, -, rfl⟩ := List.mem_map.mp hm
  simp [Message.msgType, encode_raw]

/-- A queue holds at least one message. -/
theorem Carries.ne_nil {q : MessageQueue} {tlvs : List (UInt8 × Bytes)} (h : Carries q tlvs) :
    q.msgs ≠ [] := by
  obtain ⟨parts, hparts, hmsgs, -⟩ := h
  rw [hmsgs]
  simpa using hparts

/-- A fresh queue carries nothing, in one message. -/
theorem carries_ofType (msgType : UInt8) : Carries (MessageQueue.ofType msgType) [] :=
  ⟨[[]], by simp, rfl, rfl⟩

/-- `add_TLV` does not change the type of the queue. -/
@[simp] theorem addTLV_msgType (q : MessageQueue) (tlvType : UInt8) (value : Bytes) :
    (q.addTLV tlvType value).msgType = q.msgType := rfl

/-- The error flag tells whether an ERROR was added. -/
@[simp] theorem addTLV_error (q : MessageQueue) (tlvType : UInt8) (value : Bytes) :
    (q.addTLV tlvType value).error = (q.error || tlvType == TlvType.error.toByte) := rfl

/-- `add_TLV` puts a TLV behind those that the queue carries: into the last message, or into a
new one. -/
theorem Carries.addTLV {q : MessageQueue} {tlvs : List (UInt8 × Bytes)} (h : Carries q tlvs)
    (tlvType : UInt8) (value : Bytes) :
    Carries (q.addTLV tlvType value) (tlvs ++ [(tlvType, value)]) := by
  obtain ⟨parts, hparts, hmsgs, rfl⟩ := h
  have hlast := List.dropLast_append_getLast hparts
  set last := parts.getLast hparts
  have hget : q.msgs.getLast? = some (encode q.msgType last) := by
    rw [hmsgs, ← hlast]
    simp
  have hinit : q.msgs.dropLast = parts.dropLast.map (encode q.msgType) := by
    rw [hmsgs, List.map_dropLast]
  by_cases hfits : (encode q.msgType last).size + 1 + 4 + value.length ≤ chunkSize
  · -- The TLV extends the last part.
    refine ⟨parts.dropLast ++ [last ++ [(tlvType, value)]], by simp, ?_, ?_⟩
    · simp [MessageQueue.addTLV, hget, hfits, hinit, encode_append]
    · conv_rhs => rw [← hlast]
      simp
  · -- The TLV is a part of its own.
    refine ⟨parts ++ [[(tlvType, value)]], by simp, ?_, by simp⟩
    simp only [MessageQueue.addTLV, hget, if_neg hfits]
    rw [hmsgs, List.map_append]
    rfl

/-! ### Replies -/

/-- ITEM TLVs with these values. -/
def itemTlvs (items : List Bytes) : List (UInt8 × Bytes) :=
  items.map fun item => (TlvType.item.toByte, item)

/-- A queue with the request's type that carries ITEMs and nothing else. -/
structure Itemized (q : MessageQueue) (msgType : UInt8) (items : List Bytes) : Prop where
  carries : Carries q (itemTlvs items)
  msgType_eq : q.msgType = msgType
  noError : q.error = false

/-- A fresh queue has no ITEM. -/
theorem itemized_ofType (msgType : UInt8) :
    Itemized (MessageQueue.ofType msgType) msgType [] :=
  ⟨carries_ofType msgType, rfl, rfl⟩

/-- One more ITEM behind those of the queue. -/
theorem Itemized.addItem {q : MessageQueue} {msgType : UInt8} {items : List Bytes}
    (h : Itemized q msgType items) (item : Bytes) :
    Itemized (q.addTLV TlvType.item.toByte item) msgType (items ++ [item]) where
  carries := by
    have hcarries := h.carries.addTLV TlvType.item.toByte item
    simpa [itemTlvs] using hcarries
  msgType_eq := h.msgType_eq
  noError := by
    rw [addTLV_error, h.noError]
    decide

/-- The shape of a reply: ITEMs with the values `items`, one status, one empty END, and
nothing else, in messages that all carry the request's type. The error flag of the queue
agrees with the status. -/
structure Shaped (r : Reply) (msgType : UInt8) (items : List Bytes) : Prop where
  ne_nil : r.replies.msgs ≠ []
  msgTypes : ∀ m ∈ r.replies.msgs, m.msgType = some msgType
  status_cases : r.status = .ok ∨ r.status = .error
  tlvs : ∃ value, Carries r.replies
    (itemTlvs items ++ [(r.status.toByte, value), (TlvType.end_.toByte, [])])
  verifyError_iff : r.replies.verifyError = true ↔ r.status = .error

/-- What the messages of a closed queue carry. -/
theorem Itemized.closed {q : MessageQueue} {msgType : UInt8} {items : List Bytes}
    (h : Itemized q msgType items) (status : TlvType) (err : ErrType) :
    Carries (closeResponse q status err).replies (itemTlvs items ++
      [(status.toByte, if err = .none then [] else errTypeString err),
        (TlvType.end_.toByte, [])]) := by
  have hcarries := (h.carries.addTLV status.toByte
    (if err = .none then [] else errTypeString err)).addTLV TlvType.end_.toByte []
  rwa [List.append_assoc] at hcarries

/-- Closing a queue of ITEMs gives a reply of that shape. -/
theorem Itemized.close {q : MessageQueue} {msgType : UInt8} {items : List Bytes}
    (h : Itemized q msgType items) {status : TlvType} (hstatus : status = .ok ∨ status = .error)
    (err : ErrType) : Shaped (closeResponse q status err) msgType items := by
  have hcarries := h.closed status err
  refine ⟨hcarries.ne_nil, fun m hm => ?_, hstatus, ⟨_, hcarries⟩, ?_⟩
  · rw [← h.msgType_eq]
    exact hcarries.msgType hm
  · simp only [closeResponse, MessageQueue.verifyError, addTLV_error, h.noError]
    rcases hstatus with rfl | rfl <;> decide

/-! ### The queue behind the checks -/

/-- The queue of a task, if it has one, has the property. -/
def QueueMeets (P : MessageQueue → Prop) (t : Task) : Prop := ∀ q, t.queue = some q → P q

/-- A task that stops the process has no queue to speak of. -/
theorem queueMeets_stop (P : MessageQueue → Prop) (h : Halt) : QueueMeets P (.stop h) :=
  fun _ hq => absurd hq (by simp [Task.queue])

/-- It is enough to look at the one queue that a task has. -/
theorem queueMeets_of_eq {P : MessageQueue → Prop} {t : Task} {q : MessageQueue}
    (hq : t.queue = some q) (h : P q) : QueueMeets P t := by
  intro q' hq'
  rw [hq] at hq'
  exact Option.some.inj hq' ▸ h

/-- A check in front adds nothing to the queue. -/
theorem queueMeets_check {α : Type} {P : MessageQueue → Prop} {x : Except Halt α} {k : α → Task}
    (h : ∀ a, x = .ok a → QueueMeets P (k a)) : QueueMeets P (check x k) := by
  cases x with
  | ok a => exact h a rfl
  | error e => exact queueMeets_stop P e

/-- The checks of an AUTH leave the queue as it was. -/
theorem authTask_queue (env : Env) (view : TlvView) (replies : MessageQueue) :
    QueueMeets (fun q => q = replies) (authTask env view replies) := by
  refine queueMeets_check fun tlvType _ => ?_
  split
  · exact queueMeets_of_eq rfl rfl
  refine queueMeets_check fun username _ => queueMeets_check fun next _ => ?_
  obtain ⟨isPswd, view'⟩ := next
  dsimp only
  split
  · exact queueMeets_of_eq rfl rfl
  refine queueMeets_check fun password _ => queueMeets_check fun verified _ => ?_
  split <;> exact queueMeets_of_eq rfl rfl

/-- The queue as it was, or with the first value of the request as an ITEM. -/
def Echoes (view : TlvView) (replies q : MessageQueue) : Prop :=
  q = replies ∨ ∃ sign, view.value = .ok sign ∧ q = replies.addTLV TlvType.item.toByte sign

/-- What the three transfer handlers begin with. Behind the parts of the sign the queue has
the ITEM. -/
theorem signedCheck_queue {view : TlvView} {replies : MessageQueue} {err : ErrType}
    {k : Bytes → Path × Bytes → Task}
    (hk : ∀ sign pair,
      QueueMeets (fun q => q = replies.addTLV TlvType.item.toByte sign) (k sign pair)) :
    QueueMeets (Echoes view replies)
      (check view.tlvType fun tlvType =>
        if tlvType ≠ TlvType.item.toByte then .refuse replies err else
        check view.value fun sign => check (splitSign sign) (k sign)) := by
  refine queueMeets_check fun tlvType _ => ?_
  split
  · exact queueMeets_of_eq rfl (Or.inl rfl)
  refine queueMeets_check fun sign hsign => queueMeets_check fun pair _ => ?_
  exact fun q hq => Or.inr ⟨sign, hsign, hk sign pair q hq⟩

/-- The CONTENT and the view behind it add nothing to the queue. -/
theorem contentCheck_queue {view : TlvView} {u : User} {replies : MessageQueue} {err : ErrType}
    {k : Bool × TlvView → Dir → Task}
    (hk : ∀ next dir, QueueMeets (fun q => q = replies) (k next dir)) :
    QueueMeets (fun q => q = replies) (check (view.nextIs .content) fun next =>
      if !next.1 then .refuse replies err else check u.dirPtr (k next)) := by
  refine queueMeets_check fun next _ => ?_
  split
  · exact queueMeets_of_eq rfl rfl
  · exact queueMeets_check fun dir _ => hk next dir

/-- The checks of a CREATE echo its ITEM at most. -/
theorem createTask_queue (env : Env) (u : User) (view : TlvView) (replies : MessageQueue) :
    QueueMeets (Echoes view replies) (createTask env u view replies) := by
  refine signedCheck_queue fun sign pair => contentCheck_queue fun next dir => ?_
  split <;> exact queueMeets_of_eq rfl rfl

/-- The checks of an UPDATE echo its ITEM at most. -/
theorem updateTask_queue (env : Env) (u : User) (view : TlvView) (replies : MessageQueue) :
    QueueMeets (Echoes view replies) (updateTask env u view replies) := by
  refine signedCheck_queue fun sign pair => contentCheck_queue fun next dir => ?_
  split
  · exact queueMeets_of_eq rfl rfl
  · split <;> exact queueMeets_of_eq rfl rfl

/-- The checks of an ERASE echo its ITEM at most. -/
theorem eraseTask_queue (env : Env) (u : User) (view : TlvView) (replies : MessageQueue) :
    QueueMeets (Echoes view replies) (eraseTask env u view replies) := by
  refine signedCheck_queue fun sign pair => queueMeets_check fun dir _ => ?_
  split
  · exact queueMeets_of_eq rfl rfl
  · split <;> exact queueMeets_of_eq rfl rfl

/-- The first TLV of the message has this value. -/
def FirstValue (m : Message) (value : Bytes) : Prop :=
  ∃ view, (TlvView.ofMessage m).nextTlv = .ok (true, view) ∧ view.value = .ok value

/-- The ITEMs that the reply to a request of type `msgType` may have. A SYNC that is not
rejected may have any. -/
structure ItemsFit (u : User) (m : Message) (msgType : UInt8) (items : List Bytes) : Prop where
  rejected : route u msgType = .rejected → items = []
  auth : msgType = MsgType.auth.toByte → items = []
  keepAlive : msgType = MsgType.keepAlive.toByte → items = []
  echo : msgType = MsgType.create.toByte ∨ msgType = MsgType.update.toByte ∨
    msgType = MsgType.erase.toByte → items = [] ∨ ∃ sign, FirstValue m sign ∧ items = [sign]

/-- A reply without ITEMs fits every request. -/
theorem itemsFit_nil (u : User) (m : Message) (msgType : UInt8) : ItemsFit u m msgType [] :=
  ⟨fun _ => rfl, fun _ => rfl, fun _ => rfl, fun _ => Or.inl rfl⟩

/-- A queue with ITEMs that fit the request. -/
def QueueFits (u : User) (m : Message) (msgType : UInt8) (q : MessageQueue) : Prop :=
  ∃ items, Itemized q msgType items ∧ ItemsFit u m msgType items

/-- The echo of the first value fits a request that got through to its handler. -/
theorem Echoes.fits {u : User} {m : Message} {msgType : UInt8} {view : TlvView}
    {q : MessageQueue} (hnext : (TlvView.ofMessage m).nextTlv = .ok (true, view))
    (hserved : route u msgType ≠ .rejected) (hauth : msgType ≠ MsgType.auth.toByte)
    (hkeepAlive : msgType ≠ MsgType.keepAlive.toByte)
    (h : Echoes view (MessageQueue.ofType msgType) q) : QueueFits u m msgType q := by
  rcases h with rfl | ⟨sign, hsign, rfl⟩
  · exact ⟨[], itemized_ofType msgType, itemsFit_nil u m msgType⟩
  · refine ⟨[sign], (itemized_ofType msgType).addItem sign, ?_⟩
    exact ⟨fun h => absurd h hserved, fun h => absurd h hauth, fun h => absurd h hkeepAlive,
      fun _ => Or.inr ⟨sign, ⟨view, hnext, hsign⟩, rfl⟩⟩

/-- What holds of a task's queue may be weakened. -/
theorem QueueMeets.mono {P Q : MessageQueue → Prop} {t : Task} (h : QueueMeets P t)
    (hPQ : ∀ q, P q → Q q) : QueueMeets Q t :=
  fun q hq => hPQ q (h q hq)

/-- The checks of a request end with a queue that fits it. -/
theorem taskOf_itemized (env : Env) (u : User) {m : Message} {msgType : UInt8}
    (htype : m.msgType = some msgType) :
    QueueMeets (QueueFits u m msgType) (taskOf env u m) := by
  have hfresh : QueueFits u m msgType (MessageQueue.ofType msgType) :=
    ⟨[], itemized_ofType msgType, itemsFit_nil u m msgType⟩
  unfold taskOf
  rw [htype]
  refine queueMeets_check fun next hnext => ?_
  obtain ⟨more, view⟩ := next
  dsimp only
  cases more with
  | false => exact queueMeets_of_eq rfl hfresh
  | true =>
      simp only [Bool.not_true, Bool.false_eq_true, if_false]
      cases hroute : route u msgType with
      | rejected => exact queueMeets_of_eq rfl hfresh
      | auth => exact (authTask_queue env view _).mono fun q hq => hq ▸ hfresh
      | sync => exact queueMeets_of_eq rfl hfresh
      -- The transfers have queued the ITEM of the request.
      | create =>
          obtain ⟨-, -, hbyte⟩ := admitted_of_route hroute
          exact (createTask_queue env u view _).mono fun q hq =>
            hq.fits hnext (by simp [hroute]) (by rw [hbyte]; decide) (by rw [hbyte]; decide)
      | update =>
          obtain ⟨-, -, hbyte⟩ := admitted_of_route hroute
          exact (updateTask_queue env u view _).mono fun q hq =>
            hq.fits hnext (by simp [hroute]) (by rw [hbyte]; decide) (by rw [hbyte]; decide)
      | erase =>
          obtain ⟨-, -, hbyte⟩ := admitted_of_route hroute
          exact (eraseTask_queue env u view _).mono fun q hq =>
            hq.fits hnext (by simp [hroute]) (by rw [hbyte]; decide) (by rw [hbyte]; decide)
      | keepAlive => exact queueMeets_of_eq rfl hfresh

/-! ### Closing the queue -/

/-- The reply of the outcome, if it has one, is the queue, closed once. -/
def Closes (q : MessageQueue) (o : Outcome) : Prop :=
  ∀ r, o.result = .ok r →
    ∃ status err, (status = TlvType.ok ∨ status = TlvType.error) ∧ r = closeResponse q status err

/-- A process that has stopped closes nothing. -/
theorem closes_halted (q : MessageQueue) (w : World) (u : User) (h : Halt) :
    Closes q (halted w u h) :=
  fun _ hr => absurd hr (by simp [halted])

/-- An answer with OK closes its queue. -/
theorem closes_ok (q : MessageQueue) (w : World) (u : User) (err : ErrType) :
    Closes q (answer w u q .ok err) :=
  fun _ hr => ⟨.ok, err, Or.inl rfl, (Except.ok.inj hr).symm⟩

/-- An answer with ERROR closes its queue. -/
theorem closes_error (q : MessageQueue) (w : World) (u : User) (err : ErrType) :
    Closes q (answer w u q .error err) :=
  fun _ hr => ⟨.error, err, Or.inr rfl, (Except.ok.inj hr).symm⟩

/-- The digest check closes the queue once, whatever it finds. -/
theorem CheckEnds.closes {env : Env} {w : World} {u : User} {dir : Dir} {q : MessageQueue}
    {absolutePath path digest : Bytes} {err : ErrType} {o : Outcome}
    (h : CheckEnds env w u dir q absolutePath path digest err o) : Closes q o := by
  cases h with
  | unreadable => exact closes_halted q _ _ _
  | matching => exact closes_ok q _ _ _
  | stuck => exact closes_halted q _ _ _
  | mismatch => exact closes_error q _ _ _

/-- So does the common part of the two transfers. -/
theorem WriteEnds.closes {env : Env} {w : World} {u : User} {dir : Dir} {view : TlvView}
    {q : MessageQueue} {path digest early target : Bytes} {flushed : Bool} {failed : ErrType}
    {Last : World → Outcome → Prop} {o : Outcome}
    (h : WriteEnds env w u dir view q path digest early target flushed failed Last o)
    (hlast : ∀ w o, Last w o → Closes q o) : Closes q o := by
  cases h with
  | noStream => exact closes_error q _ _ _
  | badContent => exact closes_halted q _ _ _
  | badEnd => exact closes_halted q _ _ _
  | stored => exact closes_ok q _ _ _
  | last husable content hcontent hend o ho => exact hlast _ o ho

/-- `handle_create` closes the queue once. -/
theorem createTransfer_closes (env : Env) (w : World) (u : User) (dir : Dir) (view : TlvView)
    (q : MessageQueue) (path digest : Bytes) :
    Closes q (createTransfer env w u dir view q path digest) := by
  have hends := createTransfer_ends env w u dir view q path digest
  generalize createTransfer env w u dir view q path digest = o at hends ⊢
  cases hends with
  | noParent => exact closes_error q _ _ _
  | hasParent hparent o hwrite => exact hwrite.closes fun _ _ hcheck => hcheck.closes

/-- `handle_update` closes the queue once. -/
theorem updateTransfer_closes (env : Env) (w : World) (u : User) (dir : Dir) (view : TlvView)
    (q : MessageQueue) (path digest oldDigest : Bytes) :
    Closes q (updateTransfer env w u dir view q path digest oldDigest) := by
  refine (updateTransfer_ends env w u dir view q path digest oldDigest).closes ?_
  intro w o hreplace
  cases hreplace with
  | notRemoved => exact closes_halted q _ _ _
  | notRenamed => exact closes_halted q _ _ _
  | replaced hremove hrename o hcheck => exact hcheck.closes

/-- `handle_erase` closes the queue once. -/
theorem eraseEntry_closes (env : Env) (w : World) (u : User) (dir : Dir) (q : MessageQueue)
    (path : Path) : Closes q (eraseEntry env w u dir q path) := by
  unfold eraseEntry
  dsimp only
  split
  · exact closes_error q _ _ _
  · cases (dir.erase env.hash path).2 with
    | true => exact closes_ok q _ _ _
    | false => exact closes_error q _ _ _

/-- Every request but SYNC closes the queue with which its checks end. -/
theorem perform_closes (env : Env) (w : World) (u : User) {t : Task} {q : MessageQueue}
    (hq : t.queue = some q) (hsync : t ≠ .sync q) : Closes q (perform env w u t) := by
  cases t with
  | stop h => exact absurd hq (by simp [Task.queue])
  | refuse replies err =>
      obtain rfl := Option.some.inj hq
      exact closes_error replies _ _ _
  | keepAlive replies =>
      obtain rfl := Option.some.inj hq
      exact closes_ok replies _ _ _
  | authenticate username replies =>
      obtain rfl := Option.some.inj hq
      exact closes_ok replies _ _ _
  -- SYNC queues more before it closes, and is treated by itself.
  | sync replies => exact absurd (congrArg Task.sync (Option.some.inj hq)) hsync
  | create dir view replies path digest =>
      obtain rfl := Option.some.inj hq
      exact createTransfer_closes env w u dir view replies path digest
  | update dir view replies path digest oldDigest =>
      obtain rfl := Option.some.inj hq
      exact updateTransfer_closes env w u dir view replies path digest oldDigest
  | erase dir replies path =>
      obtain rfl := Option.some.inj hq
      exact eraseEntry_closes env w u dir replies path

/-! ### SYNC -/

/-- An entry of the traversal adds one ITEM or none. -/
theorem syncEntry_itemized (env : Env) (w : World) (dir : Dir) {q : MessageQueue}
    {msgType : UInt8} (p : Path) (h : ∃ items, Itemized q msgType items) :
    ∃ items, Itemized (syncEntry env w dir q p).2.2.1 msgType items := by
  unfold syncEntry
  dsimp only
  split
  · exact h
  split
  · split
    · exact h
    · split
      · exact h
      · obtain ⟨items, hitems⟩ := h
        exact ⟨_, hitems.addItem _⟩
  · exact h

/-- The traversal queues ITEMs. Induction on the entries. -/
theorem syncLoop_itemized (env : Env) (ps : List Path) (w : World) (dir : Dir) {q : MessageQueue}
    {msgType : UInt8} (h : ∃ items, Itemized q msgType items) :
    ∃ items, Itemized (syncLoop env ps w dir q).2.2.1 msgType items := by
  induction ps generalizing w dir q with
  | nil => exact h
  | cons p ps ih =>
      have hentry := syncEntry_itemized env w dir p h
      rw [syncLoop]
      split
      · rename_i heq
        rw [heq] at hentry
        split
        · exact hentry
        · exact ih _ _ hentry
      · exact hentry

/-- SYNC closes a queue of ITEMs: the one that the traversal has filled, or a fresh one where the
`catch` block answers. -/
theorem handleSync_closes (env : Env) (w : World) (u : User) {q : MessageQueue}
    (h : ∃ items, Itemized q MsgType.sync.toByte items) :
    ∃ q' items, Itemized q' MsgType.sync.toByte items ∧ Closes q' (handleSync env w u q) := by
  have hfresh := itemized_ofType MsgType.sync.toByte
  unfold handleSync
  cases hdir : u.dirPtr with
  | error e => exact ⟨_, _, hfresh, closes_halted _ _ _ _⟩
  | ok dir =>
      simp only [attempt]
      split
      · exact ⟨_, _, hfresh, closes_error _ _ _ _⟩
      · rename_i entries _
        obtain ⟨items, hloop⟩ :=
          syncLoop_itemized env entries (w.record (.iterate dir.path)) dir h
        split
        · rename_i heq
          rw [heq] at hloop
          exact ⟨_, items, hloop, closes_ok _ _ _ _⟩
        · rename_i heq
          rw [heq] at hloop
          exact ⟨_, items, hloop, closes_error _ _ _ _⟩
        · exact ⟨_, _, hfresh, closes_error _ _ _ _⟩
        · exact ⟨_, _, hfresh, closes_halted _ _ _ _⟩

/-! ### All requests -/

/-- A request of some type closes a queue of ITEMs that fit it. -/
theorem perform_closed (env : Env) (w : World) (u : User) {m : Message} {msgType : UInt8}
    (htype : m.msgType = some msgType) :
    ∃ q items, Itemized q msgType items ∧ ItemsFit u m msgType items ∧
      Closes q (perform env w u (taskOf env u m)) := by
  have hqueue := taskOf_itemized env u htype
  by_cases hsync : ∃ q, taskOf env u m = .sync q
  · obtain ⟨q, htask⟩ := hsync
    rw [htask] at hqueue ⊢
    obtain ⟨items, hitems, -⟩ := hqueue q rfl
    obtain ⟨hauth, hsynced, hbyte⟩ : Passed env u m (.sync q) :=
      passed_taskOf htask (by simp) (by simp)
    rw [htype, Option.some.injEq] at hbyte
    subst hbyte
    obtain ⟨q', items', hitems', hcloses⟩ := handleSync_closes env w u ⟨items, hitems⟩
    -- A SYNC that passed its checks was not rejected, and is of no other type.
    have hroute : route u MsgType.sync.toByte = .sync := by simp [route, hauth, hsynced]
    exact ⟨q', items', hitems', ⟨fun h => absurd (hroute.symm.trans h) (by simp),
      fun h => absurd h (by decide), fun h => absurd h (by decide),
      fun h => absurd h (by decide)⟩, hcloses⟩
  · generalize taskOf env u m = t at hqueue hsync
    cases hq : t.queue with
    | none =>
        cases t with
        | stop e => exact ⟨_, [], itemized_ofType msgType, itemsFit_nil u m msgType,
            closes_halted _ _ _ _⟩
        | _ => exact absurd hq (by simp [Task.queue])
    | some q =>
        obtain ⟨items, hitems, hfit⟩ := hqueue q hq
        exact ⟨q, items, hitems, hfit, perform_closes env w u hq fun h => hsync ⟨q, h⟩⟩

/-- A request of some type is answered in the protocol's shape. -/
theorem perform_shaped {env : Env} {w : World} {u : User} {m : Message} {msgType : UInt8}
    {r : Reply} (htype : m.msgType = some msgType)
    (h : (perform env w u (taskOf env u m)).result = .ok r) :
    ∃ items, Shaped r msgType items ∧ ItemsFit u m msgType items := by
  obtain ⟨q, items, hitems, hfit, hcloses⟩ := perform_closed env w u htype
  obtain ⟨status, err, hstatus, rfl⟩ := hcloses r h
  exact ⟨items, hitems.close hstatus err, hfit⟩

/-- A request that is answered has a type. -/
theorem msgType_of_answered {env : Env} {w : World} {u : User} {m : Message} {r : Reply}
    (h : (perform env w u (taskOf env u m)).result = .ok r) :
    ∃ msgType, m.msgType = some msgType := by
  cases htype : m.msgType with
  | some msgType => exact ⟨msgType, rfl⟩
  | none =>
      rw [taskOf, htype] at h
      exact absurd h (by simp [perform, halted])

/-- Every reply has the protocol's shape, with ITEMs that fit the request. -/
theorem reply_shape (env : Env) (w : World) (u : User) (m : Message) (r : Reply)
    (h : (handleRequest env w u m).result = .ok r) :
    ∃ msgType items, m.msgType = some msgType ∧ Shaped r msgType items ∧
      ItemsFit u m msgType items := by
  rw [handleRequest_eq_perform] at h
  obtain ⟨msgType, htype⟩ := msgType_of_answered h
  obtain ⟨items, hshaped, hfit⟩ := perform_shaped htype h
  exact ⟨msgType, items, htype, hshaped, hfit⟩

/-- The UPDATE of a file that the session's view does not have: one ITEM, ERROR and END. -/
theorem reply_shape_update :
    ∃ msgType items,
      (encode MsgType.update.toByte [(TlvType.item.toByte, createSign (ascii "/a") (ascii "D")),
        (TlvType.content.toByte, [1])]).msgType = some msgType ∧
      Shaped (closeResponse ((MessageQueue.ofType MsgType.update.toByte).addTLV
        TlvType.item.toByte (createSign (ascii "/a") (ascii "D"))) .error .updateNotExist)
        msgType items ∧
      ItemsFit ⟨[], [], [], true, true, some (Dir.getInstance (ascii "/b"))⟩
        (encode MsgType.update.toByte [(TlvType.item.toByte, createSign (ascii "/a") (ascii "D")),
          (TlvType.content.toByte, [1])]) msgType items :=
  reply_shape (Env.ofTables [] none [] []) (World.ofDisk Disk.empty) _ _ _ rfl

end RemoteBackup.Proofs
