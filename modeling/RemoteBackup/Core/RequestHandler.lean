import RemoteBackup.Communication.TlvView
import RemoteBackup.Core.World
import RemoteBackup.Core.User

/-!
# `RemoteBackup.Core.RequestHandler`: serving one request

`core/request_handler.cpp`. A handler takes the shared world and the session's user and
returns an `Outcome`: the new world, the new user, and either the reply or the reason why
the process stopped. The world is kept when the process stops, because what a handler did
to the disk before stays done.

`attempt` continues with the result of a step that can stop the process. The parts of
`handle_create` and `handle_update` that follow the checks are definitions of their own
(`createTransfer`, `createFinish`, `updateTransfer`, `updateFinish`), one for the `try` block
that writes and one for the block of the last chunk. `eraseEntry` is the same for
`handle_erase`.
-/

set_option autoImplicit false

namespace RemoteBackup

open Lib

/-- A closed reply. `status` and `err` are what `close_response` was called with. -/
structure Reply where
  replies : MessageQueue
  status : TlvType
  err : ErrType
  deriving DecidableEq

/-- What a handler leaves behind. -/
structure Outcome where
  world : World
  user : User
  result : Except Halt Reply

/-- The request was answered with the given status. -/
def Outcome.Answered (o : Outcome) (status : TlvType) (err : ErrType) : Prop :=
  ∃ r, o.result = .ok r ∧ r.status = status ∧ r.err = err

/-- Whether a request was answered so can be evaluated. -/
instance (o : Outcome) (status : TlvType) (err : ErrType) : Decidable (o.Answered status err) :=
  match h : o.result with
  | .ok r => decidable_of_iff (r.status = status ∧ r.err = err) (by simp [Outcome.Answered, h])
  | .error _ => .isFalse (by simp [Outcome.Answered, h])

/-- `std::to_string` of an error code. -/
def errTypeString (err : ErrType) : Bytes :=
  (Nat.toDigits 10 err.code).map (fun c => UInt8.ofNat c.toNat)

/-- `close_response`. The source reads the digits through a pointer into a string whose
block has ended, so what it sends in their place is up to the compiler. The length is
right. -/
def closeResponse (replies : MessageQueue) (status : TlvType) (err : ErrType) : Reply where
  replies :=
    (replies.addTLV status.toByte (if err = .none then [] else errTypeString err)).addTLV
      TlvType.end_.toByte []
  status := status
  err := err

/-- The process stops. -/
def halted (w : World) (u : User) (h : Halt) : Outcome := ⟨w, u, .error h⟩

/-- `return close_response(...)`. -/
def answer (w : World) (u : User) (replies : MessageQueue) (status : TlvType) (err : ErrType) :
    Outcome :=
  ⟨w, u, .ok (closeResponse replies status err)⟩

/-- Go on with the result of a step that can stop the process. -/
def attempt {α : Type} (w : World) (u : User) (x : Except Halt α) (k : α → Outcome) : Outcome :=
  match x with
  | .ok a => k a
  | .error h => halted w u h

/-- The user's directory, read through `dir_ptr_`. -/
def User.dirPtr (u : User) : Except Halt Dir :=
  match u.dir with
  | some dir => .ok dir
  | none => .error .undefinedBehavior

/-! ### AUTH and SYNC -/

/-- `request_handler::handle_auth`. -/
def handleAuth (env : Env) (w : World) (u : User) (view : TlvView) (replies : MessageQueue) :
    Outcome :=
  attempt w u view.tlvType fun tlvType =>
  if tlvType ≠ TlvType.usrn.toByte then answer w u replies .error .authNoUsrn else
  attempt w u view.value fun username =>
  attempt w u (view.nextIs .pswd) fun (isPswd, view) =>
  if !isPswd then answer w u replies .error .authNoPswd else
  attempt w u view.value fun password =>
  attempt w u (verifyPassword env username password) fun verified =>
  if verified then
    let userId := md5HashString env username
    answer w
      { u with
        id := userId
        username := username
        dir := some (Dir.getInstance (append (toPath env.backupRoot) userId))
        isAuth := true }
      replies .ok .none
  else answer w u replies .error .authFailed

/-- How the traversal of `handle_sync` ends: at the last entry, at an insertion that found
its key taken, or by an exception. -/
inductive SyncEnd where
  | done
  | duplicate
  | thrown (t : Thrown)
  deriving DecidableEq

/-- The body of the traversal's loop on one entry. -/
def syncEntry (env : Env) (w : World) (dir : Dir) (replies : MessageQueue)
    (absolutePath : Path) : World × Dir × MessageQueue × SyncEnd :=
  let failed := env.fails w.calls (.isRegularFile absolutePath)
  let w := w.record (.isRegularFile absolutePath)
  if failed then (w, dir, replies, .thrown .filesystemError) else
  match w.disk.status absolutePath with
  | some (.file _) =>
      -- What is left starts with the separator behind the directory.
      let relativePath := absolutePath.drop dir.path.length
      match w.md5Hash env absolutePath relativePath with
      | (w, .error t) => (w, dir, replies, .thrown t)
      | (w, .ok digest) =>
          match dir.insertOrAssign env.hash relativePath ⟨true, digest⟩ with
          | (dir, false) => (w, dir, replies, .duplicate)
          | (dir, true) =>
              (w, dir, replies.addTLV TlvType.item.toByte (createSign relativePath digest), .done)
  -- A directory, or an entry that has gone in the meantime, is passed over.
  | _ => (w, dir, replies, .done)

/-- The traversal. After each entry the iterator advances, which can throw. -/
def syncLoop (env : Env) : List Path → World → Dir → MessageQueue →
    World × Dir × MessageQueue × SyncEnd
  | [], w, dir, replies => (w, dir, replies, .done)
  | p :: ps, w, dir, replies =>
      match syncEntry env w dir replies p with
      | (w, dir, replies, .done) =>
          if env.fails w.calls (.advance p) then
            (w.record (.advance p), dir, replies, .thrown .filesystemError)
          else syncLoop env ps (w.record (.advance p)) dir replies
      | stopped => stopped

/-- The entries that `recursive_directory_iterator(p)` meets, or nothing when its
constructor throws. -/
def iterate (env : Env) (w : World) (p : Path) : Option (List Path) :=
  if env.fails w.calls (.iterate p) then none
  else
    match w.disk.status p with
    | some .dir => some ((env.visit (w.disk.entriesBelow (denote p))).map fun l =>
        p ++ toPath (l.drop (denote p).length))
    | _ => none

/-- `request_handler::handle_sync`. -/
def handleSync (env : Env) (w : World) (u : User) (replies : MessageQueue) : Outcome :=
  attempt w u u.dirPtr fun dir =>
  let entries := iterate env w dir.path
  let w := w.record (.iterate dir.path)
  match entries with
  -- The `catch` block drops the replies that were queued.
  | none =>
      answer w { u with dir := some dir.clear } (MessageQueue.ofType MsgType.sync.toByte) .error
        .syncFailed
  | some entries =>
      match syncLoop env entries w dir replies with
      | (w, dir, replies, .done) =>
          answer w { u with dir := some dir, isSynced := true } replies .ok .none
      | (w, dir, replies, .duplicate) =>
          answer w { u with dir := some dir.clear } replies .error .syncFailed
      | (w, dir, _, .thrown .filesystemError) =>
          answer w { u with dir := some dir.clear } (MessageQueue.ofType MsgType.sync.toByte)
            .error .syncFailed
      -- The handlers catch nothing but a `filesystem_error`.
      | (w, dir, _, .thrown .otherException) =>
          halted w { u with dir := some dir } .uncaughtException

/-! ### CREATE -/

/-- The block of `handle_create` for the last chunk. -/
def createFinish (env : Env) (w : World) (u : User) (dir : Dir) (replies : MessageQueue)
    (absolutePath path : Path) (digest : Bytes) : Outcome :=
  let w := (w.close u.id).eraseStream u.id
  match w.md5Hash env absolutePath path with
  | (w, .ok sDigest) =>
      -- The entry is synced since the write, and goes with the file.
      if sDigest ≠ digest then
        match w.remove env absolutePath with
        | (w, false) => halted w { u with dir := some dir } .exitFailure
        | (w, true) =>
            answer w { u with dir := some (dir.erase env.hash path).1 } replies .error
              .createNoMatch
      else answer w { u with dir := some dir } replies .ok .none
  | (w, .error .filesystemError) =>
      match w.remove env absolutePath with
      | (w, false) => halted w { u with dir := some dir } .exitFailure
      | (w, true) =>
          answer w { u with dir := some (dir.erase env.hash path).1 } replies .error .createFailed
  | (w, .error .otherException) => halted w { u with dir := some dir } .uncaughtException

/-- The entry that a chunk writes into the user's view, if it writes one: the first chunk
an unsynced one with `early` as digest, the last chunk a synced one. -/
def chunkResource (isFirst isLast : Bool) (digest early : Bytes) : Option Resource :=
  if isFirst then some ⟨isLast, if isLast then digest else early⟩
  else if isLast then some ⟨true, digest⟩
  else none

/-- The user's view after a chunk of `path`. -/
def noteChunk (env : Env) (dir : Dir) (path : Path) : Option Resource → Dir
  | some r => (dir.insertOrAssign env.hash path r).1
  | none => dir

/-- The digest that stands in an unfinished entry. -/
def tempDigest : Bytes := ascii "TEMP"

/-- `handle_create` from the creation of the parent directories on. -/
def createTransfer (env : Env) (w : World) (u : User) (dir : Dir) (view : TlvView)
    (replies : MessageQueue) (path : Path) (digest : Bytes) : Outcome :=
  let absolutePath := append dir.path path
  match w.createDirectories env (parentPath absolutePath) with
  | (w, false) => answer w u replies .error .createFailed
  | (w, true) =>
      match w.getStream env u.id absolutePath with
      | (w, isFirst) =>
          -- A stream that failed to open stays in the table.
          if !w.usable u.id then answer w u replies .error .createFailed else
          attempt w u view.value fun content =>
          let w := (w.write env u.id content).flush u.id
          attempt w u view.verifyEnd fun isLast =>
          let dir := noteChunk env dir path (chunkResource isFirst isLast digest tempDigest)
          if isLast then createFinish env w u dir replies absolutePath path digest
          else answer w { u with dir := some dir } replies .ok .none

/-- `request_handler::handle_create`. -/
def handleCreate (env : Env) (w : World) (u : User) (view : TlvView) (replies : MessageQueue) :
    Outcome :=
  attempt w u view.tlvType fun tlvType =>
  if tlvType ≠ TlvType.item.toByte then answer w u replies .error .createNoItem else
  attempt w u view.value fun sign =>
  attempt w u (splitSign sign) fun (path, digest) =>
  let replies := replies.addTLV TlvType.item.toByte sign
  attempt w u (view.nextIs .content) fun (isContent, view) =>
  if !isContent then answer w u replies .error .createNoContent else
  attempt w u u.dirPtr fun dir =>
  match dir.rsrc env.hash path with
  -- The map decides. What is on the disk is not looked at.
  | some ⟨true, _⟩ => answer w u replies .error .createAlreadyExist
  | _ => createTransfer env w u dir view replies path digest

/-! ### UPDATE -/

/-- The block of `handle_update` for the last chunk. -/
def updateFinish (env : Env) (w : World) (u : User) (dir : Dir) (replies : MessageQueue)
    (absolutePath tempPath path : Path) (digest : Bytes) : Outcome :=
  let w := (w.close u.id).eraseStream u.id
  -- The old file goes before the digest of the new one is known.
  match w.remove env absolutePath with
  | (w, false) => halted w { u with dir := some dir } .exitFailure
  | (w, true) =>
      match w.rename env tempPath absolutePath with
      | (w, false) => halted w { u with dir := some dir } .exitFailure
      | (w, true) =>
          match w.md5Hash env absolutePath path with
          | (w, .ok sDigest) =>
              if sDigest ≠ digest then
                match w.remove env absolutePath with
                | (w, false) => halted w { u with dir := some dir } .exitFailure
                | (w, true) =>
                    answer w { u with dir := some (dir.erase env.hash path).1 } replies .error
                      .updateNoMatch
              else answer w { u with dir := some dir } replies .ok .none
          | (w, .error .filesystemError) =>
              match w.remove env absolutePath with
              | (w, false) => halted w { u with dir := some dir } .exitFailure
              | (w, true) =>
                  answer w { u with dir := some (dir.erase env.hash path).1 } replies .error
                    .updateFailed
          | (w, .error .otherException) =>
              halted w { u with dir := some dir } .uncaughtException

/-- `temp_path`: the path with `.temp` behind it. -/
def tempPath (absolutePath : Path) : Path := absolutePath ++ ascii ".temp"

/-- `handle_update` from the opening of the stream on. `oldDigest` is the digest of the
entry found in the user's view. Nothing flushes the stream before it is closed. -/
def updateTransfer (env : Env) (w : World) (u : User) (dir : Dir) (view : TlvView)
    (replies : MessageQueue) (path : Path) (digest oldDigest : Bytes) : Outcome :=
  let absolutePath := append dir.path path
  match w.getStream env u.id (tempPath absolutePath) with
  | (w, isFirst) =>
      if !w.usable u.id then answer w u replies .error .updateFailed else
      attempt w u view.value fun content =>
      let w := w.write env u.id content
      attempt w u view.verifyEnd fun isLast =>
      let dir := noteChunk env dir path (chunkResource isFirst isLast digest oldDigest)
      if isLast then
        updateFinish env w u dir replies absolutePath (tempPath absolutePath) path digest
      else answer w { u with dir := some dir } replies .ok .none

/-- `request_handler::handle_update`. -/
def handleUpdate (env : Env) (w : World) (u : User) (view : TlvView) (replies : MessageQueue) :
    Outcome :=
  attempt w u view.tlvType fun tlvType =>
  if tlvType ≠ TlvType.item.toByte then answer w u replies .error .updateNoItem else
  attempt w u view.value fun sign =>
  attempt w u (splitSign sign) fun (path, digest) =>
  let replies := replies.addTLV TlvType.item.toByte sign
  attempt w u (view.nextIs .content) fun (isContent, view) =>
  if !isContent then answer w u replies .error .updateNoContent else
  attempt w u u.dirPtr fun dir =>
  match dir.rsrc env.hash path with
  | none => answer w u replies .error .updateNotExist
  | some rsrc =>
      -- The entry may be unsynced; its digest is compared all the same.
      if rsrc.digest = digest then answer w u replies .error .updateAlreadyUpdated
      else updateTransfer env w u dir view replies path digest rsrc.digest

/-! ### ERASE -/

/-- The loop of `handle_erase` that removes emptied directories. `fuel` bounds the rounds.
Each round shortens `tmp`, so the length of `tmp` is enough (`cleanup_fuel`). -/
def cleanup (env : Env) (dirPath : Path) : Nat → World → Path → World
  | 0, w, _ => w
  | fuel + 1, w, tmp =>
      if elements tmp = elements dirPath then w else
      match w.isEmpty env tmp with
      | (w, some true) =>
          match w.remove env tmp with
          | (w, true) => cleanup env dirPath fuel w (parentPath tmp)
          | (w, false) => w
      | (w, _) => w

/-- `handle_erase` from the removal of the file on. -/
def eraseEntry (env : Env) (w : World) (u : User) (dir : Dir) (replies : MessageQueue)
    (path : Path) : Outcome :=
  let absolutePath := append dir.path path
  match w.remove env absolutePath with
  | (w, false) => answer w u replies .error .none
  | (w, true) =>
      match dir.erase env.hash path with
      | (dir', erased) =>
          -- The reply is closed before the loop, which reports nothing.
          let tmp := parentPath absolutePath
          answer (cleanup env dir.path (tmp.length + 1) w tmp) { u with dir := some dir' } replies
            (if erased then .ok else .error) .none

/-- `request_handler::handle_erase`. -/
def handleErase (env : Env) (w : World) (u : User) (view : TlvView) (replies : MessageQueue) :
    Outcome :=
  attempt w u view.tlvType fun tlvType =>
  if tlvType ≠ TlvType.item.toByte then answer w u replies .error .eraseNoItem else
  attempt w u view.value fun sign =>
  attempt w u (splitSign sign) fun (path, digest) =>
  let replies := replies.addTLV TlvType.item.toByte sign
  attempt w u u.dirPtr fun dir =>
  match dir.rsrc env.hash path with
  | none => answer w u replies .error .eraseNoMatch
  | some rsrc =>
      if rsrc.digest ≠ digest then answer w u replies .error .eraseNoMatch
      else eraseEntry env w u dir replies path

/-! ### Dispatch -/

/-- Where `handle_request` sends a request whose first TLV was found. -/
inductive Route where
  | rejected
  | auth
  | sync
  | create
  | update
  | erase
  | keepAlive
  deriving DecidableEq

/-- The tests of `handle_request` on the session's flags and the message type. -/
def route (u : User) (msgType : UInt8) : Route :=
  if !u.isAuth then
    if msgType = MsgType.auth.toByte then .auth else .rejected
  else if !u.isSynced then
    if msgType = MsgType.sync.toByte then .sync else .rejected
  else if msgType = MsgType.create.toByte then .create
  else if msgType = MsgType.update.toByte then .update
  else if msgType = MsgType.erase.toByte then .erase
  else if msgType = MsgType.keepAlive.toByte then .keepAlive
  else .rejected

/-- `request_handler::handle_request`. -/
def handleRequest (env : Env) (w : World) (u : User) (request : Message) : Outcome :=
  match request.msgType with
  | none => halted w u .undefinedBehavior
  | some msgType =>
      let replies := MessageQueue.ofType msgType
      -- The first TLV is looked for before the session is.
      attempt w u (TlvView.ofMessage request).nextTlv fun (more, view) =>
      if !more then answer w u replies .error .noContent else
      match route u msgType with
      | .rejected => answer w u replies .error .msgTypeRejected
      | .auth => handleAuth env w u view replies
      | .sync => handleSync env w u replies
      | .create => handleCreate env w u view replies
      | .update => handleUpdate env w u view replies
      | .erase => handleErase env w u view replies
      | .keepAlive => answer w u replies .ok .none

end RemoteBackup
