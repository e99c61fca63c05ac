import RemoteBackup.Proofs.Requests

/-!
# `RemoteBackup.Proofs.SignedTasks`: the tasks of well-formed requests

What a client sends that means a CREATE, an UPDATE or an ERASE: an ITEM with a sign, and for the
first two a CONTENT behind it. The checks of a synced session come to the task that was meant, as
far as the view allows it.
-/

set_option autoImplicit false

namespace RemoteBackup.Proofs

open Lib

/-- A request of this type that begins with an ITEM, at `view`, whose value is the sign of path and
digest. -/
structure SignedAt (t : MsgType) (path digest : Bytes) (m : Message) (view : TlvView) : Prop where
  msgType : m.msgType = some t.toByte
  first : (TlvView.ofMessage m).nextTlv = .ok (true, view)
  isItem : view.tlvType = .ok TlvType.item.toByte
  sign : ∃ sign, view.value = .ok sign ∧ splitSign sign = .ok (path, digest)

/-- An ERASE of `path`. -/
def Erases (path digest : Bytes) (m : Message) : Prop := ∃ view, SignedAt .erase path digest m view

/-- A CREATE or UPDATE of `path` that brings `content`. `isLast` is what `verify_end` says. -/
def Uploads (t : MsgType) (path digest content : Bytes) (isLast : Bool) (m : Message) : Prop :=
  ∃ view view', SignedAt t path digest m view ∧ view.nextIs .content = .ok (true, view') ∧
    view'.value = .ok content ∧ (TlvView.ofMessage m).verifyEnd = .ok isLast

/-- The requests of one upload, with what each of them brings. `verify_end` is true of the last one
only. -/
inductive Chunks (t : MsgType) (path digest : Bytes) : List Bytes → List Message → Prop
  | last {content : Bytes} {m : Message} (hm : Uploads t path digest content true m) :
      Chunks t path digest [content] [m]
  | more {content : Bytes} {contents : List Bytes} {m : Message} {ms : List Message}
      (hm : Uploads t path digest content false m) (hms : Chunks t path digest contents ms) :
      Chunks t path digest (content :: contents) (m :: ms)

/-- An upload has a first chunk. -/
theorem Chunks.first {t : MsgType} {path digest : Bytes} {contents : List Bytes} {ms : List Message}
    (h : Chunks t path digest contents ms) :
    ∃ m rest content isLast, ms = m :: rest ∧ Uploads t path digest content isLast m := by
  cases h with
  | last hm => exact ⟨_, _, _, _, rfl, hm⟩
  | more hm _ => exact ⟨_, _, _, _, rfl, hm⟩

variable {env : Env} {u : User} {dir : Dir} {path digest content : Bytes} {isLast : Bool}
  {m : Message}

/-- The session has a view and takes transfers. -/
structure Transferring (u : User) (dir : Dir) : Prop where
  auth : u.isAuth = true
  synced : u.isSynced = true
  view : u.dir = some dir

/-- A session that can transfer has a directory. -/
theorem Transferring.dirPtr (h : Transferring u dir) : u.dirPtr = .ok dir := by
  rw [User.dirPtr, h.view]

/-- The tests on the session's flags let the request through to its handler. -/
theorem Transferring.route (h : Transferring u dir) :
    route u MsgType.create.toByte = .create ∧ route u MsgType.update.toByte = .update ∧
      route u MsgType.erase.toByte = .erase := by
  simp [RemoteBackup.route, h.auth, h.synced, MsgType.toByte]

/-- An ERASE of an entry with its digest passes the checks. -/
theorem taskOf_erases (h : Erases path digest m) (hready : Transferring u dir) {synced : Bool}
    (hrsrc : dir.rsrc env.hash path = some ⟨synced, digest⟩) :
    ∃ replies, taskOf env u m = .erase dir replies path := by
  obtain ⟨view, hmsg, hfirst, hitem, sign, hsign, hsplit⟩ := h
  refine ⟨(MessageQueue.ofType MsgType.erase.toByte).addTLV TlvType.item.toByte sign, ?_⟩
  simp [taskOf, hmsg, hfirst, check, hready.route, eraseTask, hitem, hsign, hsplit, hready.dirPtr,
    hrsrc]

/-- A CREATE of a path that is not finished passes the checks. -/
theorem taskOf_creates (h : Uploads .create path digest content isLast m)
    (hready : Transferring u dir)
    (hrsrc : ∀ e, dir.rsrc env.hash path = some e → e.synced = false) :
    ∃ view replies, taskOf env u m = .create dir view replies path digest ∧
      view.value = .ok content ∧ view.verifyEnd = .ok isLast := by
  obtain ⟨view, view', ⟨hmsg, hfirst, hitem, sign, hsign, hsplit⟩, hnext, hcontent, hend⟩ := h
  refine ⟨view', (MessageQueue.ofType MsgType.create.toByte).addTLV TlvType.item.toByte sign, ?_,
    hcontent, ?_⟩
  · simp only [taskOf, hmsg, hfirst, check, hready.route.1, createTask, hitem, hsign, hsplit, hnext,
      hready.dirPtr]
    rcases hfound : dir.rsrc env.hash path with _ | ⟨_ | _, x⟩
    · simp
    · simp
    · exact absurd (hrsrc _ hfound) (by simp)
  · rw [verifyEnd_of_raw ((nextIs_raw hnext).trans (nextTlv_raw hfirst))]
    exact hend

/-- An UPDATE of an entry to another digest passes the checks. -/
theorem taskOf_updates (h : Uploads .update path digest content isLast m)
    (hready : Transferring u dir) {synced : Bool} {oldDigest : Bytes}
    (hrsrc : dir.rsrc env.hash path = some ⟨synced, oldDigest⟩)
    (hne : oldDigest ≠ digest) :
    ∃ view replies, taskOf env u m = .update dir view replies path digest oldDigest ∧
      view.value = .ok content ∧ view.verifyEnd = .ok isLast := by
  obtain ⟨view, view', ⟨hmsg, hfirst, hitem, sign, hsign, hsplit⟩, hnext, hcontent, hend⟩ := h
  refine ⟨view', (MessageQueue.ofType MsgType.update.toByte).addTLV TlvType.item.toByte sign, ?_,
    hcontent, ?_⟩
  · simp [taskOf, hmsg, hfirst, check, hready.route, updateTask, hitem, hsign, hsplit, hnext,
      hready.dirPtr, hrsrc, hne]
  · rw [verifyEnd_of_raw ((nextIs_raw hnext).trans (nextTlv_raw hfirst))]
    exact hend

/-! ### What the checks turn down -/

/-- A CREATE of a path that is synced. -/
theorem taskOf_createsAgain (h : Uploads .create path digest content isLast m)
    (hready : Transferring u dir) {oldDigest : Bytes}
    (hrsrc : dir.rsrc env.hash path = some ⟨true, oldDigest⟩) :
    ∃ replies err, taskOf env u m = .refuse replies err := by
  obtain ⟨view, view', ⟨hmsg, hfirst, hitem, sign, hsign, hsplit⟩, hnext, -, -⟩ := h
  refine ⟨(MessageQueue.ofType MsgType.create.toByte).addTLV TlvType.item.toByte sign,
    .createAlreadyExist, ?_⟩
  simp [taskOf, hmsg, hfirst, check, hready.route, createTask, hitem, hsign, hsplit, hnext,
    hready.dirPtr, hrsrc]

/-- An UPDATE of a path that the view does not hold. -/
theorem taskOf_updatesUnknown (h : Uploads .update path digest content isLast m)
    (hready : Transferring u dir) (hrsrc : dir.rsrc env.hash path = none) :
    ∃ replies err, taskOf env u m = .refuse replies err := by
  obtain ⟨view, view', ⟨hmsg, hfirst, hitem, sign, hsign, hsplit⟩, hnext, -, -⟩ := h
  refine ⟨(MessageQueue.ofType MsgType.update.toByte).addTLV TlvType.item.toByte sign,
    .updateNotExist, ?_⟩
  simp [taskOf, hmsg, hfirst, check, hready.route, updateTask, hitem, hsign, hsplit, hnext,
    hready.dirPtr, hrsrc]

/-- An UPDATE with the digest that the view holds. -/
theorem taskOf_updatesSame (h : Uploads .update path digest content isLast m)
    (hready : Transferring u dir) {synced : Bool}
    (hrsrc : dir.rsrc env.hash path = some ⟨synced, digest⟩) :
    ∃ replies err, taskOf env u m = .refuse replies err := by
  obtain ⟨view, view', ⟨hmsg, hfirst, hitem, sign, hsign, hsplit⟩, hnext, -, -⟩ := h
  refine ⟨(MessageQueue.ofType MsgType.update.toByte).addTLV TlvType.item.toByte sign,
    .updateAlreadyUpdated, ?_⟩
  simp [taskOf, hmsg, hfirst, check, hready.route, updateTask, hitem, hsign, hsplit, hnext,
    hready.dirPtr, hrsrc]

/-- An ERASE with a sign that is not the view's. -/
theorem taskOf_erasesStale (h : Erases path digest m) (hready : Transferring u dir)
    (hrsrc : ∀ r, dir.rsrc env.hash path = some r → r.digest ≠ digest) :
    ∃ replies err, taskOf env u m = .refuse replies err := by
  obtain ⟨view, hmsg, hfirst, hitem, sign, hsign, hsplit⟩ := h
  refine ⟨(MessageQueue.ofType MsgType.erase.toByte).addTLV TlvType.item.toByte sign,
    .eraseNoMatch, ?_⟩
  cases hfound : dir.rsrc env.hash path with
  | none =>
      simp [taskOf, hmsg, hfirst, check, hready.route, eraseTask, hitem, hsign, hsplit,
        hready.dirPtr, hfound]
  | some r =>
      simp [taskOf, hmsg, hfirst, check, hready.route, eraseTask, hitem, hsign, hsplit,
        hready.dirPtr, hfound, hrsrc r hfound]

end RemoteBackup.Proofs
