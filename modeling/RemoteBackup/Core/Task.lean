import RemoteBackup.Core.RequestHandler

/-!
# `RemoteBackup.Core.Task`: the checks of a request

The handlers of `core/request_handler.cpp` begin with checks that read the session and the
message, and nothing of what the sessions share. A `Task` is what the checks of a request lead
to, and `taskOf` are the checks by themselves. The handlers as they stand are in
`RemoteBackup.Core.RequestHandler`.
-/

set_option autoImplicit false

namespace RemoteBackup

open Lib

/-- What the checks of a request lead to. -/
inductive Task where
  | stop (h : Halt)
  | refuse (replies : MessageQueue) (err : ErrType)
  | keepAlive (replies : MessageQueue)
  | authenticate (username : Bytes) (replies : MessageQueue)
  | sync (replies : MessageQueue)
  | create (dir : Dir) (view : TlvView) (replies : MessageQueue) (path digest : Bytes)
  | update (dir : Dir) (view : TlvView) (replies : MessageQueue) (path digest oldDigest : Bytes)
  | erase (dir : Dir) (replies : MessageQueue) (path : Bytes)

/-- Go on with the result of a check that can stop the process. -/
def check {α : Type} (x : Except Halt α) (k : α → Task) : Task :=
  match x with
  | .ok a => k a
  | .error h => .stop h

/-- The checks of `handle_auth`. -/
def authTask (env : Env) (view : TlvView) (replies : MessageQueue) : Task :=
  check view.tlvType fun tlvType =>
  if tlvType ≠ TlvType.usrn.toByte then .refuse replies .authNoUsrn else
  check view.value fun username =>
  check (view.nextIs .pswd) fun (isPswd, view) =>
  if !isPswd then .refuse replies .authNoPswd else
  check view.value fun password =>
  check (verifyPassword env username password) fun verified =>
  if verified then .authenticate username replies else .refuse replies .authFailed

/-- The checks of `handle_create`. -/
def createTask (env : Env) (u : User) (view : TlvView) (replies : MessageQueue) : Task :=
  check view.tlvType fun tlvType =>
  if tlvType ≠ TlvType.item.toByte then .refuse replies .createNoItem else
  check view.value fun sign =>
  check (splitSign sign) fun (path, digest) =>
  let replies := replies.addTLV TlvType.item.toByte sign
  check (view.nextIs .content) fun (isContent, view) =>
  if !isContent then .refuse replies .createNoContent else
  check u.dirPtr fun dir =>
  match dir.rsrc env.hash path with
  | some ⟨true, _⟩ => .refuse replies .createAlreadyExist
  | _ => .create dir view replies path digest

/-- The checks of `handle_update`. -/
def updateTask (env : Env) (u : User) (view : TlvView) (replies : MessageQueue) : Task :=
  check view.tlvType fun tlvType =>
  if tlvType ≠ TlvType.item.toByte then .refuse replies .updateNoItem else
  check view.value fun sign =>
  check (splitSign sign) fun (path, digest) =>
  let replies := replies.addTLV TlvType.item.toByte sign
  check (view.nextIs .content) fun (isContent, view) =>
  if !isContent then .refuse replies .updateNoContent else
  check u.dirPtr fun dir =>
  match dir.rsrc env.hash path with
  | none => .refuse replies .updateNotExist
  | some rsrc =>
      if rsrc.digest = digest then .refuse replies .updateAlreadyUpdated
      else .update dir view replies path digest rsrc.digest

/-- The checks of `handle_erase`. -/
def eraseTask (env : Env) (u : User) (view : TlvView) (replies : MessageQueue) : Task :=
  check view.tlvType fun tlvType =>
  if tlvType ≠ TlvType.item.toByte then .refuse replies .eraseNoItem else
  check view.value fun sign =>
  check (splitSign sign) fun (path, digest) =>
  let replies := replies.addTLV TlvType.item.toByte sign
  check u.dirPtr fun dir =>
  match dir.rsrc env.hash path with
  | none => .refuse replies .eraseNoMatch
  | some rsrc =>
      if rsrc.digest ≠ digest then .refuse replies .eraseNoMatch else .erase dir replies path

/-- The checks of a request. -/
def taskOf (env : Env) (u : User) (m : Message) : Task :=
  match m.msgType with
  | none => .stop .undefinedBehavior
  | some msgType =>
      let replies := MessageQueue.ofType msgType
      check (TlvView.ofMessage m).nextTlv fun (more, view) =>
      if !more then .refuse replies .noContent else
      match route u msgType with
      | .rejected => .refuse replies .msgTypeRejected
      | .auth => authTask env view replies
      | .sync => .sync replies
      | .create => createTask env u view replies
      | .update => updateTask env u view replies
      | .erase => eraseTask env u view replies
      | .keepAlive => .keepAlive replies

/-! ### What is known of a task -/

/-- The message type of the requests that lead to a task. -/
def Task.msgType : Task → Option MsgType
  | .stop _ => none
  | .refuse _ _ => none
  | .keepAlive _ => some .keepAlive
  | .authenticate _ _ => some .auth
  | .sync _ => some .sync
  | .create _ _ _ _ _ => some .create
  | .update _ _ _ _ _ _ => some .update
  | .erase _ _ _ => some .erase

/-- The queue that the effects of a request close or add to. -/
def Task.queue : Task → Option MessageQueue
  | .stop _ => none
  | .refuse replies _ => some replies
  | .keepAlive replies => some replies
  | .authenticate _ replies => some replies
  | .sync replies => some replies
  | .create _ _ replies _ _ => some replies
  | .update _ _ replies _ _ _ => some replies
  | .erase _ replies _ => some replies

/-- The view of a transfer's content. -/
def Task.view : Task → Option TlvView
  | .create _ view _ _ _ => some view
  | .update _ view _ _ _ _ => some view
  | _ => none

end RemoteBackup
