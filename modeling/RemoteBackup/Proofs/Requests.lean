import RemoteBackup.Core.Server
import RemoteBackup.Core.Task
import RemoteBackup.Proofs.TlvCodec

/-!
# `RemoteBackup.Proofs.Requests`: a request is its checks, then its effects

The checks of `handle_request` and of the handlers read the session and the message, and
nothing of the world. `taskOf` is their result, and `perform` is what follows.

* `handleRequest_eq_perform`: a request is `perform` after `taskOf`. Every proof about all
  requests splits the task.
* `taskOf_checked`: the checks refuse a request, stop the process, or establish `Passed`.
* `step_ends`: what one event does to the server.
-/

set_option autoImplicit false

namespace RemoteBackup.Proofs

open Lib

/-! ### Checks and effects -/

/-- The effects of a request. -/
def perform (env : Env) (w : World) (u : User) : Task → Outcome
  | .stop h => halted w u h
  | .refuse replies err => answer w u replies .error err
  | .keepAlive replies => answer w u replies .ok .none
  | .authenticate username replies =>
      answer w
        { u with
          id := md5HashString env username
          username := username
          dir := some (Dir.getInstance
            (append (toPath env.backupRoot) (md5HashString env username)))
          isAuth := true }
        replies .ok .none
  | .sync replies => handleSync env w u replies
  | .create dir view replies path digest => createTransfer env w u dir view replies path digest
  | .update dir view replies path digest oldDigest =>
      updateTransfer env w u dir view replies path digest oldDigest
  | .erase dir replies path => eraseEntry env w u dir replies path

/-- A check that stops the process stops it before anything is performed. -/
theorem perform_check {α : Type} (env : Env) (w : World) (u : User) (x : Except Halt α)
    (k : α → Task) :
    perform env w u (check x k) = attempt w u x fun a => perform env w u (k a) := by
  cases x <;> rfl

/-- What follows a step may be replaced by what equals it. -/
theorem attempt_congr {α : Type} {w : World} {u : User} {x : Except Halt α} {k k' : α → Outcome}
    (h : ∀ a, k a = k' a) : attempt w u x k = attempt w u x k' := by
  rw [funext h]

/-- `handle_auth` is its checks and then the login. -/
theorem handleAuth_eq (env : Env) (w : World) (u : User) (view : TlvView)
    (replies : MessageQueue) :
    handleAuth env w u view replies = perform env w u (authTask env view replies) := by
  simp only [handleAuth, authTask, perform_check, apply_ite (perform env w u)]
  rfl

/-- `handle_create` is its checks and then the transfer. -/
theorem handleCreate_eq (env : Env) (w : World) (u : User) (view : TlvView)
    (replies : MessageQueue) :
    handleCreate env w u view replies = perform env w u (createTask env u view replies) := by
  simp only [handleCreate, createTask, perform_check, apply_ite (perform env w u)]
  refine attempt_congr fun tlvType => if_congr Iff.rfl rfl ?_
  refine attempt_congr fun sign => attempt_congr fun pair => attempt_congr fun next => ?_
  refine if_congr Iff.rfl rfl (attempt_congr fun dir => ?_)
  rcases dir.rsrc env.hash pair.1 with _ | ⟨_ | _, digest⟩ <;> rfl

/-- `handle_update` is its checks and then the transfer. -/
theorem handleUpdate_eq (env : Env) (w : World) (u : User) (view : TlvView)
    (replies : MessageQueue) :
    handleUpdate env w u view replies = perform env w u (updateTask env u view replies) := by
  simp only [handleUpdate, updateTask, perform_check, apply_ite (perform env w u)]
  refine attempt_congr fun tlvType => if_congr Iff.rfl rfl ?_
  refine attempt_congr fun sign => attempt_congr fun pair => attempt_congr fun next => ?_
  refine if_congr Iff.rfl rfl (attempt_congr fun dir => ?_)
  rcases dir.rsrc env.hash pair.1 with _ | rsrc
  · rfl
  · simp only [apply_ite (perform env w u)]
    rfl

/-- `handle_erase` is its checks and then the removal. -/
theorem handleErase_eq (env : Env) (w : World) (u : User) (view : TlvView)
    (replies : MessageQueue) :
    handleErase env w u view replies = perform env w u (eraseTask env u view replies) := by
  simp only [handleErase, eraseTask, perform_check, apply_ite (perform env w u)]
  refine attempt_congr fun tlvType => if_congr Iff.rfl rfl ?_
  refine attempt_congr fun sign => attempt_congr fun pair => attempt_congr fun dir => ?_
  rcases dir.rsrc env.hash pair.1 with _ | rsrc
  · rfl
  · simp only [apply_ite (perform env w u)]
    rfl

/-- A request is its checks, which read only the session and the message, and then its
effects. -/
theorem handleRequest_eq_perform (env : Env) (w : World) (u : User) (m : Message) :
    handleRequest env w u m = perform env w u (taskOf env u m) := by
  unfold handleRequest taskOf
  cases m.msgType with
  | none => rfl
  | some msgType =>
      simp only [perform_check, apply_ite (perform env w u)]
      refine attempt_congr fun next => if_congr Iff.rfl rfl ?_
      cases route u msgType with
      | rejected => rfl
      | auth => exact handleAuth_eq env w u _ _
      | sync => rfl
      | create => exact handleCreate_eq env w u _ _
      | update => exact handleUpdate_eq env w u _ _
      | erase => exact handleErase_eq env w u _ _
      | keepAlive => rfl

/-! ### What the checks establish -/

/-- The first TLV of the message holds a sign with this path and this digest. -/
def Signed (m : Message) (path digest : Bytes) : Prop :=
  ∃ view sign, (TlvView.ofMessage m).nextTlv = .ok (true, view) ∧ view.value = .ok sign ∧
    splitSign sign = .ok (path, digest)

/-- What `handle_request` has seen of a session and a message type on each of its routes. -/
def Admitted (u : User) (msgType : UInt8) : Route → Prop
  | .rejected => True
  | .auth => u.isAuth = false ∧ msgType = MsgType.auth.toByte
  | .sync => u.isAuth = true ∧ u.isSynced = false ∧ msgType = MsgType.sync.toByte
  | .create => u.isAuth = true ∧ u.isSynced = true ∧ msgType = MsgType.create.toByte
  | .update => u.isAuth = true ∧ u.isSynced = true ∧ msgType = MsgType.update.toByte
  | .erase => u.isAuth = true ∧ u.isSynced = true ∧ msgType = MsgType.erase.toByte
  | .keepAlive => u.isAuth = true ∧ u.isSynced = true ∧ msgType = MsgType.keepAlive.toByte

/-- A route is taken by the sessions and the message type it is for. -/
theorem admitted_of_route {u : User} {msgType : UInt8} {r : Route} (h : route u msgType = r) :
    Admitted u msgType r := by
  rw [← h, route]
  cases hauth : u.isAuth <;> cases hsync : u.isSynced <;>
    simp only [Bool.not_false, Bool.not_true, Bool.false_eq_true, if_true, if_false] <;>
    (repeat' split) <;> simp_all [Admitted]

/-- The codes that a check answers with. The others are for what fails behind the checks. -/
def Refusal (err : ErrType) : Prop :=
  err ∉ [ErrType.none, .createFailed, .createNoMatch, .updateFailed, .updateNoMatch, .syncFailed]

/-- The codes of the checks are a finite list. -/
instance (err : ErrType) : Decidable (Refusal err) := by unfold Refusal; infer_instance

/-- The checks of a handler end in a refusal, stop the process, or let the request go on. -/
inductive Checked (Passed : Task → Prop) : Task → Prop
  | stop (h : Halt) : Checked Passed (.stop h)
  | refuse (replies : MessageQueue) (err : ErrType) (herr : Refusal err) :
      Checked Passed (.refuse replies err)
  | passed (t : Task) (ht : Passed t) : Checked Passed t

/-- A check in front: where it passes, so does what follows. -/
theorem checked_check {α : Type} {Passed : Task → Prop} {x : Except Halt α} {k : α → Task}
    (h : ∀ a, x = .ok a → Checked Passed (k a)) : Checked Passed (check x k) := by
  cases x with
  | ok a => exact h a rfl
  | error e => exact .stop e

/-- `next_tlv` moves the cursor over the same bytes. -/
theorem nextTlv_raw {v v' : TlvView} {more : Bool} (h : v.nextTlv = .ok (more, v')) :
    v'.raw = v.raw := by
  cases more with
  | true =>
      obtain ⟨-, k, t, b0, b1, b2, b3, -, -, -, -, -, -, hraw, -⟩ := nextTlv_true h
      exact hraw
  | false => exact (nextTlv_false h).2.1

/-- The test for the next TLV leaves the bytes alone. -/
theorem nextIs_raw {v v' : TlvView} {t : TlvType} {b : Bool} (h : v.nextIs t = .ok (b, v')) :
    v'.raw = v.raw := by
  unfold TlvView.nextIs at h
  cases hnext : v.nextTlv with
  | error e => simp [hnext, bind, Except.bind] at h
  | ok next =>
      obtain ⟨more, v1⟩ := next
      have hraw := nextTlv_raw hnext
      cases more with
      | false =>
          simp only [hnext, bind, Except.bind, Bool.false_eq_true, if_false, pure, Except.pure,
            Except.ok.injEq, Prod.mk.injEq] at h
          rw [← h.2, hraw]
      | true =>
          cases htype : v1.tlvType with
          | error e => simp [hnext, htype, bind, Except.bind] at h
          | ok tlvType =>
              simp only [hnext, htype, bind, Except.bind, if_true, pure, Except.pure,
                Except.ok.injEq, Prod.mk.injEq] at h
              rw [← h.2, hraw]

/-- A directory pointer that can be followed leads to the session's directory. -/
theorem dirPtr_eq_ok {u : User} {dir : Dir} (h : u.dirPtr = .ok dir) : u.dir = some dir := by
  cases hd : u.dir with
  | none => simp [User.dirPtr, hd] at h
  | some dir' => simpa [User.dirPtr, hd] using h

/-- An AUTH that passes has a user name and a password that is verified. -/
theorem authTask_checked (env : Env) (view : TlvView) (replies : MessageQueue) :
    Checked (fun t => ∃ username password, view.value = .ok username ∧
      verifyPassword env username password = .ok true ∧ t = .authenticate username replies)
      (authTask env view replies) := by
  refine checked_check fun tlvType _ => ?_
  split
  · exact .refuse _ _ (by decide)
  refine checked_check fun username husername => checked_check fun next _ => ?_
  obtain ⟨isPswd, view'⟩ := next
  dsimp only
  split
  · exact .refuse _ _ (by decide)
  refine checked_check fun password _ => checked_check fun verified hverified => ?_
  split
  · rename_i hv
    exact .passed _ ⟨username, password, husername, by rw [hverified, hv], rfl⟩
  · exact .refuse _ _ (by decide)

/-- What the three transfer handlers begin with: an ITEM, its value, and the parts of the sign. -/
theorem signedCheck_checked {Passed : Task → Prop} {view : TlvView} {replies : MessageQueue}
    {err : ErrType} (herr : Refusal err) {k : Bytes → Path × Bytes → Task}
    (hk : ∀ sign path digest, view.value = .ok sign → splitSign sign = .ok (path, digest) →
      Checked Passed (k sign (path, digest))) :
    Checked Passed (check view.tlvType fun tlvType =>
      if tlvType ≠ TlvType.item.toByte then .refuse replies err else
      check view.value fun sign => check (splitSign sign) (k sign)) := by
  refine checked_check fun tlvType _ => ?_
  split
  · exact .refuse _ _ herr
  · refine checked_check fun sign hsign => checked_check fun pair hpair => ?_
    exact hk sign pair.1 pair.2 hsign hpair

/-- What CREATE and UPDATE go on with: a CONTENT and the user's directory. -/
theorem contentCheck_checked {Passed : Task → Prop} {view : TlvView} {u : User}
    {replies : MessageQueue} {err : ErrType} (herr : Refusal err) {k : Bool × TlvView → Dir → Task}
    (hk : ∀ view' dir, view.nextIs .content = .ok (true, view') → u.dir = some dir →
      Checked Passed (k (true, view') dir)) :
    Checked Passed (check (view.nextIs .content) fun next =>
      if !next.1 then .refuse replies err else check u.dirPtr (k next)) := by
  refine checked_check fun next hnext => ?_
  obtain ⟨isContent, view'⟩ := next
  cases isContent with
  | false => exact .refuse _ _ herr
  | true => exact checked_check fun dir hdir => hk view' dir hnext (dirPtr_eq_ok hdir)

/-- A CREATE that passes has a sign and a CONTENT, and its entry, if there is one, is unfinished. -/
theorem createTask_checked (env : Env) (u : User) (view : TlvView) (replies : MessageQueue) :
    Checked (fun t => ∃ sign path digest view' dir, view.value = .ok sign ∧
      splitSign sign = .ok (path, digest) ∧ view.nextIs .content = .ok (true, view') ∧
      u.dir = some dir ∧ (∀ e, dir.rsrc env.hash path = some e → e.synced = false) ∧
      t = .create dir view' (replies.addTLV TlvType.item.toByte sign) path digest)
      (createTask env u view replies) := by
  refine signedCheck_checked (by decide) fun sign path digest hsign hpair => ?_
  dsimp only
  refine contentCheck_checked (by decide) fun view' dir hview hu => ?_
  cases hrsrc : dir.rsrc env.hash path with
  | none => exact .passed _ ⟨sign, _, _, view', dir, hsign, hpair, hview, hu, by simp [hrsrc], rfl⟩
  | some e =>
      obtain ⟨synced, old⟩ := e
      cases synced with
      | true => exact .refuse _ _ (by decide)
      | false =>
          exact .passed _ ⟨sign, _, _, view', dir, hsign, hpair, hview, hu, by simp [hrsrc], rfl⟩

/-- An UPDATE that passes has a sign and a CONTENT, and an entry with another digest. -/
theorem updateTask_checked (env : Env) (u : User) (view : TlvView) (replies : MessageQueue) :
    Checked (fun t => ∃ sign path digest view' dir rsrc, view.value = .ok sign ∧
      splitSign sign = .ok (path, digest) ∧ view.nextIs .content = .ok (true, view') ∧
      u.dir = some dir ∧ dir.rsrc env.hash path = some rsrc ∧ rsrc.digest ≠ digest ∧
      t = .update dir view' (replies.addTLV TlvType.item.toByte sign) path digest rsrc.digest)
      (updateTask env u view replies) := by
  refine signedCheck_checked (by decide) fun sign path digest hsign hpair => ?_
  dsimp only
  refine contentCheck_checked (by decide) fun view' dir hview hu => ?_
  cases hrsrc : dir.rsrc env.hash path with
  | none => exact .refuse _ _ (by decide)
  | some rsrc =>
      dsimp only
      split
      · exact .refuse _ _ (by decide)
      · rename_i hdigest
        exact .passed _ ⟨sign, path, digest, view', dir, rsrc, hsign, hpair, hview, hu, hrsrc,
          hdigest, rfl⟩

/-- An ERASE that passes has a sign, and an entry with the same digest. -/
theorem eraseTask_checked (env : Env) (u : User) (view : TlvView) (replies : MessageQueue) :
    Checked (fun t => ∃ sign path digest dir rsrc, view.value = .ok sign ∧
      splitSign sign = .ok (path, digest) ∧ u.dir = some dir ∧
      dir.rsrc env.hash path = some rsrc ∧ rsrc.digest = digest ∧
      t = .erase dir (replies.addTLV TlvType.item.toByte sign) path)
      (eraseTask env u view replies) := by
  refine signedCheck_checked (by decide) fun sign path digest hsign hpair =>
    checked_check fun dir hdir => ?_
  cases hrsrc : dir.rsrc env.hash path with
  | none => exact .refuse _ _ (by decide)
  | some rsrc =>
      dsimp only
      split
      · exact .refuse _ _ (by decide)
      · rename_i hdigest
        exact .passed _ ⟨sign, path, digest, dir, rsrc, hsign, hpair, dirPtr_eq_ok hdir, hrsrc,
          by simpa using hdigest, rfl⟩

/-- What the checks of a request have established when they let it go on. -/
def Passed (env : Env) (u : User) (m : Message) : Task → Prop
  | .stop _ => False
  | .refuse _ _ => False
  | .keepAlive _ => u.isAuth = true ∧ u.isSynced = true ∧
      m.msgType = some MsgType.keepAlive.toByte
  | .authenticate username _ => u.isAuth = false ∧ m.msgType = some MsgType.auth.toByte ∧
      ∃ password, verifyPassword env username password = .ok true
  | .sync _ => u.isAuth = true ∧ u.isSynced = false ∧ m.msgType = some MsgType.sync.toByte
  | .create dir view _ path digest => u.isAuth = true ∧ u.isSynced = true ∧
      m.msgType = some MsgType.create.toByte ∧ Signed m path digest ∧ view.raw = m.raw ∧
      u.dir = some dir ∧ ∀ e, dir.rsrc env.hash path = some e → e.synced = false
  | .update dir view _ path digest oldDigest => u.isAuth = true ∧ u.isSynced = true ∧
      m.msgType = some MsgType.update.toByte ∧ Signed m path digest ∧ view.raw = m.raw ∧
      u.dir = some dir ∧ oldDigest ≠ digest ∧
      ∃ rsrc, dir.rsrc env.hash path = some rsrc ∧ rsrc.digest = oldDigest
  | .erase dir _ path => u.isAuth = true ∧ u.isSynced = true ∧
      m.msgType = some MsgType.erase.toByte ∧ u.dir = some dir ∧
      ∃ rsrc, dir.rsrc env.hash path = some rsrc ∧ Signed m path rsrc.digest

/-- What passes has every weaker property. -/
theorem Checked.mono {P Q : Task → Prop} (h : ∀ t, P t → Q t) {t : Task} (ht : Checked P t) :
    Checked Q t := by
  cases ht with
  | stop e => exact .stop e
  | refuse replies err herr => exact .refuse replies err herr
  | passed t ht => exact .passed t (h t ht)

/-- The checks of every request refuse it, stop the process, or establish `Passed`. -/
theorem taskOf_checked (env : Env) (u : User) (m : Message) :
    Checked (Passed env u m) (taskOf env u m) := by
  unfold taskOf
  cases htype : m.msgType with
  | none => exact .stop _
  | some msgType =>
      refine checked_check fun next hnext => ?_
      obtain ⟨more, view⟩ := next
      dsimp only
      split
      · exact .refuse _ _ (by decide)
      rename_i hmore
      replace hnext : (TlvView.ofMessage m).nextTlv = .ok (true, view) := by
        rw [hnext]
        simpa using hmore
      have hraw : view.raw = m.raw := (nextTlv_raw hnext).trans rfl
      cases hroute : route u msgType with
      | rejected => exact .refuse _ _ (by decide)
      | auth =>
          obtain ⟨hauth, rfl⟩ := admitted_of_route hroute
          refine (authTask_checked env view _).mono ?_
          rintro t ⟨username, password, -, hverify, rfl⟩
          exact ⟨hauth, htype, password, hverify⟩
      | sync =>
          obtain ⟨hauth, hsynced, rfl⟩ := admitted_of_route hroute
          exact .passed _ ⟨hauth, hsynced, htype⟩
      | create =>
          obtain ⟨hauth, hsynced, rfl⟩ := admitted_of_route hroute
          refine (createTask_checked env u view _).mono ?_
          rintro t ⟨sign, path, digest, view', dir, hsign, hsplit, hview, hdir, hrsrc, rfl⟩
          exact ⟨hauth, hsynced, htype, ⟨view, sign, hnext, hsign, hsplit⟩,
            (nextIs_raw hview).trans hraw, hdir, hrsrc⟩
      | update =>
          obtain ⟨hauth, hsynced, rfl⟩ := admitted_of_route hroute
          refine (updateTask_checked env u view _).mono ?_
          rintro t ⟨sign, path, digest, view', dir, rsrc, hsign, hsplit, hview, hdir, hrsrc,
            hdigest, rfl⟩
          exact ⟨hauth, hsynced, htype, ⟨view, sign, hnext, hsign, hsplit⟩,
            (nextIs_raw hview).trans hraw, hdir, hdigest, rsrc, hrsrc, rfl⟩
      | erase =>
          obtain ⟨hauth, hsynced, rfl⟩ := admitted_of_route hroute
          refine (eraseTask_checked env u view _).mono ?_
          rintro t ⟨sign, path, digest, dir, rsrc, hsign, hsplit, hdir, hrsrc, rfl, rfl⟩
          exact ⟨hauth, hsynced, htype, hdir, rsrc, hrsrc, view, sign, hnext, hsign, hsplit⟩
      | keepAlive =>
          obtain ⟨hauth, hsynced, rfl⟩ := admitted_of_route hroute
          exact .passed _ ⟨hauth, hsynced, htype⟩

/-- A task that is neither a refusal nor a stop has passed the checks. -/
theorem passed_taskOf {env : Env} {u : User} {m : Message} {t : Task} (h : taskOf env u m = t)
    (hstop : ∀ e, t ≠ .stop e) (hrefuse : ∀ replies err, t ≠ .refuse replies err) :
    Passed env u m t := by
  have hchecked := taskOf_checked env u m
  rw [h] at hchecked
  cases hchecked with
  | stop e => exact absurd rfl (hstop e)
  | refuse replies err => exact absurd rfl (hrefuse replies err)
  | passed t ht => exact ht

/-- No two message types share a byte. -/
theorem MsgType.toByte_injective {t k : MsgType} (h : t.toByte = k.toByte) : t = k := by
  cases t <;> cases k <;> first | rfl | cases h

/-- The checks of a request of type `k` stop the process, refuse it, or lead to a task of the
same type. -/
theorem taskOf_cases {env : Env} {u : User} {m : Message} {k : MsgType}
    (htype : m.msgType = some k.toByte) :
    (∃ h, taskOf env u m = .stop h) ∨
      (∃ replies err, taskOf env u m = .refuse replies err ∧ Refusal err) ∨
      (taskOf env u m).msgType = some k := by
  have hchecked := taskOf_checked env u m
  generalize taskOf env u m = t at hchecked ⊢
  cases hchecked with
  | stop h => exact Or.inl ⟨h, rfl⟩
  | refuse replies err herr => exact Or.inr (Or.inl ⟨replies, err, rfl, herr⟩)
  | passed t ht =>
      right; right
      have hsame : ∀ t : MsgType, m.msgType = some t.toByte → t = k := by
        intro t h
        rw [htype] at h
        exact (MsgType.toByte_injective (Option.some.inj h)).symm
      cases t with
      | stop h => exact ht.elim
      | refuse replies err => exact ht.elim
      | keepAlive => exact congrArg some (hsame _ ht.2.2)
      | authenticate => exact congrArg some (hsame _ ht.2.1)
      | sync => exact congrArg some (hsame _ ht.2.2)
      | create => exact congrArg some (hsame _ ht.2.2.1)
      | update => exact congrArg some (hsame _ ht.2.2.1)
      | erase => exact congrArg some (hsame _ ht.2.2.1)

/-- A task of a CREATE is a creation. -/
theorem Task.create_of_msgType {t : Task} (h : t.msgType = some .create) :
    ∃ dir view replies path digest, t = .create dir view replies path digest := by
  cases t with
  | create dir view replies path digest => exact ⟨_, _, _, _, _, rfl⟩
  | stop | refuse | keepAlive | authenticate | sync | update | erase => simp [Task.msgType] at h

/-- A task of an UPDATE is a replacement. -/
theorem Task.update_of_msgType {t : Task} (h : t.msgType = some .update) :
    ∃ dir view replies path digest oldDigest,
      t = .update dir view replies path digest oldDigest := by
  cases t with
  | update dir view replies path digest oldDigest => exact ⟨_, _, _, _, _, _, rfl⟩
  | stop | refuse | keepAlive | authenticate | sync | create | erase => simp [Task.msgType] at h

/-- A task of a SYNC is a traversal. -/
theorem Task.sync_of_msgType {t : Task} (h : t.msgType = some .sync) :
    ∃ replies, t = .sync replies := by
  cases t with
  | sync replies => exact ⟨replies, rfl⟩
  | stop | refuse | keepAlive | authenticate | create | update | erase => simp [Task.msgType] at h

/-- A message has one sign. -/
theorem Signed.unique {m : Message} {path digest path' digest' : Bytes}
    (h : Signed m path digest) (h' : Signed m path' digest') : path = path' ∧ digest = digest' := by
  obtain ⟨view, sign, hnext, hvalue, hsplit⟩ := h
  obtain ⟨view', sign', hnext', hvalue', hsplit'⟩ := h'
  -- Each step is a function of the step before.
  rw [hnext] at hnext'
  cases hnext'
  rw [hvalue] at hvalue'
  cases hvalue'
  rw [hsplit] at hsplit'
  cases hsplit'
  exact ⟨rfl, rfl⟩

/-- `verify_end` looks at the buffer alone. -/
theorem verifyEnd_of_raw {v : TlvView} {m : Message} (h : v.raw = m.raw) :
    v.verifyEnd = (TlvView.ofMessage m).verifyEnd := by
  simp [TlvView.verifyEnd, TlvView.ofMessage, h]

/-! ### Replies -/

/-- An answer carries one status and one code. -/
theorem answered_answer_iff {w : World} {u : User} {replies : MessageQueue}
    {status status' : TlvType} {err err' : ErrType} :
    (answer w u replies status err).Answered status' err' ↔ status = status' ∧ err = err' := by
  constructor
  · rintro ⟨r, hr, hstatus, herr⟩
    rw [← Except.ok.inj hr] at hstatus herr
    exact ⟨hstatus, herr⟩
  · rintro ⟨rfl, rfl⟩
    exact ⟨_, rfl, rfl, rfl⟩

/-- An ERROR is no OK. -/
theorem not_answered_error {w : World} {u : User} {replies : MessageQueue} {err : ErrType} :
    ¬ (answer w u replies .error err).Answered .ok .none := by
  simp [answered_answer_iff]

/-- A process that has stopped does not answer. -/
theorem not_answered_halted {w : World} {u : User} {h : Halt} {status : TlvType} {err : ErrType} :
    ¬ (halted w u h).Answered status err := by
  rintro ⟨r, hr, -⟩
  cases hr

/-- A request of type `k` has passed its checks when it is answered OK, or with a code that no
check answers with. -/
theorem task_of_answered {env : Env} {w : World} {u : User} {m : Message} {k : MsgType}
    {status : TlvType} {err : ErrType} (htype : m.msgType = some k.toByte)
    (h : (handleRequest env w u m).Answered status err)
    (hserved : status = .error → ¬ Refusal err) : (taskOf env u m).msgType = some k := by
  rw [handleRequest_eq_perform] at h
  rcases @taskOf_cases env u m k htype with ⟨e, htask⟩ | ⟨replies, err', htask, hrefusal⟩ | hkind
  · rw [htask] at h
    exact absurd h not_answered_halted
  · rw [htask, perform, answered_answer_iff] at h
    exact absurd (h.2 ▸ hrefusal) (hserved h.1.symm)
  · exact hkind

/-! ### Steps of the server -/

/-- What one event does: nothing, or what it asks for. -/
inductive StepEnds (env : Env) (s : Server) : Event → Server → Prop
  | idle (e : Event) : StepEnds env s e s
  | accepted (c : Nat) (isAuth isSynced : Bool) (ip : Bytes) (hhalt : s.halt = none)
      (hc : s.sessions c = none) :
      StepEnds env s (.accept c isAuth isSynced ip)
        { s with sessions := Function.update s.sessions c (some (User.fresh isAuth isSynced ip)) }
  | served (c : Nat) (m : Message) (u : User) (hhalt : s.halt = none)
      (hc : s.sessions c = some u) : StepEnds env s (.request c m) (s.serve env c u m)
  | shut (c : Nat) (u : User) (hhalt : s.halt = none) (hc : s.sessions c = some u) :
      StepEnds env s (.shutdown c)
        { s with
          world := s.world.eraseStream u.id
          sessions := Function.update s.sessions c none }

/-- Every event has one of these ends. -/
theorem step_ends (env : Env) (s : Server) (e : Event) :
    StepEnds env s e (Server.step env s e) := by
  unfold Server.step
  split
  · exact .idle e
  rename_i hhalt
  replace hhalt : s.halt = none := by simpa using hhalt
  cases e with
  | accept c isAuth isSynced ip =>
      cases hc : s.sessions c with
      | some u => simpa [hc] using StepEnds.idle _
      | none => simpa [hc] using StepEnds.accepted c isAuth isSynced ip hhalt hc
  | request c m =>
      cases hc : s.sessions c with
      | some u => simpa [hc] using StepEnds.served c m u hhalt hc
      | none => simpa [hc] using StepEnds.idle _
  | shutdown c =>
      cases hc : s.sessions c with
      | some u => simpa [hc] using StepEnds.shut c u hhalt hc
      | none => simpa [hc] using StepEnds.idle _

/-- A process that still runs after an event has run before it. -/
theorem halt_of_step {env : Env} {s : Server} {e : Event} (h : (Server.step env s e).halt = none) :
    s.halt = none := by
  unfold Server.step at h
  split at h
  · exact h
  · rename_i hhalt
    simpa using hhalt

/-- A request that the process survives has a reply. -/
theorem result_of_serve {env : Env} {s : Server} {c : Nat} {u : User} {m : Message}
    (h : (s.serve env c u m).halt = none) :
    ∃ r, (handleRequest env s.world u m).result = .ok r := by
  simp only [Server.serve] at h
  split at h
  · exact ⟨_, ‹_›⟩
  · exact absurd h (by simp)

/-- A request of a live connection is served. -/
theorem step_request {env : Env} {s : Server} {c : Nat} {u : User} (m : Message)
    (hhalt : s.halt = none) (hc : s.sessions c = some u) :
    Server.step env s (.request c m) = s.serve env c u m := by
  simp [Server.step, hhalt, hc]

/-- A server that has stopped stays as it is. -/
theorem run_of_halt {env : Env} {t : Server} {e : Halt} (h : t.halt = some e) (fs : List Event) :
    run (Server.step env) t fs = t := by
  have hstep : ∀ t' f, t' = t → Server.step env t' f = t := by
    rintro t' f rfl
    unfold Server.step
    rw [if_pos (by simp [h])]
  exact (invariant_always (I := fun t' => t' = t) rfl (fun t' f => hstep t' f) fs).1

/-- Where a session comes from after one event: it was there, it is new, or it has made the
request that was served. -/
theorem step_sessions {env : Env} {s : Server} {e : Event} {c : Nat} {u : User}
    (h : (Server.step env s e).sessions c = some u) :
    s.sessions c = some u ∨
      (∃ isAuth isSynced ip, e = .accept c isAuth isSynced ip ∧
        u = User.fresh isAuth isSynced ip) ∨
      ∃ m u', e = .request c m ∧ s.halt = none ∧ s.sessions c = some u' ∧
        u = (handleRequest env s.world u' m).user := by
  have hstep := step_ends env s e
  generalize Server.step env s e = s' at hstep h
  cases hstep with
  | idle => exact Or.inl h
  | accepted c' isAuth isSynced ip =>
      by_cases hc : c = c'
      · subst hc
        simp only [Function.update_self, Option.some.injEq] at h
        exact Or.inr (Or.inl ⟨isAuth, isSynced, ip, rfl, h.symm⟩)
      · simp only [Function.update_of_ne hc] at h
        exact Or.inl h
  | served c' m u' hhalt hu' =>
      by_cases hc : c = c'
      · subst hc
        simp only [Server.serve, Function.update_self, Option.some.injEq] at h
        exact Or.inr (Or.inr ⟨m, u', rfl, hhalt, hu', h.symm⟩)
      · simp only [Server.serve, Function.update_of_ne hc] at h
        exact Or.inl h
  | shut c' =>
      by_cases hc : c = c'
      · simp [hc] at h
      · simp only [Function.update_of_ne hc] at h
        exact Or.inl h

/-- A property of the requests that a server serves: of the world, the session and the
message. -/
def OnRequest (P : World → User → Message → Prop) (s : Server) : Event → Prop
  | .request c m => ∀ u, s.halt = none → s.sessions c = some u → P s.world u m
  | _ => True

/-- What holds of the session that a request belongs to holds of the event. -/
theorem onRequest_of_session {P : World → User → Message → Prop} {s : Server} {c : Nat} {u : User}
    {m : Message} (hsession : s.sessions c = some u) (h : P s.world u m) :
    OnRequest P s (.request c m) := by
  intro u' _ hu'
  obtain rfl : u = u' := Option.some.inj (hsession.symm.trans hu')
  exact h

/-- Properties that agree on requests agree on events. -/
theorem onRequest_congr {P Q : World → User → Message → Prop} (h : ∀ w u m, P w u m ↔ Q w u m)
    (s : Server) (e : Event) : OnRequest P s e ↔ OnRequest Q s e := by
  cases e with
  | request c m =>
      exact forall_congr' fun u => imp_congr_right fun _ => imp_congr_right fun _ => h s.world u m
  | accept => exact Iff.rfl
  | shutdown => exact Iff.rfl

/-- What holds of every request of a run holds of one that is served in it. -/
theorem onRequest_of_along {env : Env} {P : World → User → Message → Prop} {s : Server}
    {pre post : List Event} {c : Nat} {m : Message} {u : User}
    (h : Along (Server.step env) (OnRequest P) s (pre ++ .request c m :: post))
    (hhalt : (run (Server.step env) s pre).halt = none)
    (hc : (run (Server.step env) s pre).sessions c = some u) :
    P (run (Server.step env) s pre).world u m :=
  (along_iff _ _ _).mp h pre (.request c m) post rfl u hhalt hc

end RemoteBackup.Proofs
