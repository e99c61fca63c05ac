import RemoteBackup.Core.Task
import RemoteBackup.Lib.Program

/-!
# `RemoteBackup.Core.Stepwise`: the request handlers, one call at a time

`core/request_handler.cpp` once more, for the threads of `server::run`. In
`RemoteBackup.Core.RequestHandler` a request changes the world as a whole. Here a handler is a
program of `Call`s, the calls of the source on what the threads share: the file system and the
`open_streams`. Another thread may run between any two of them. What a handler does with its
message, its reply and its user is not shared, and stands between the calls. The checks of a
request look at nothing else, so they are those of `RemoteBackup.taskOf`.

`get_stream` and `erase_stream` hold the mutex of `open_streams`, so each of them is one call.
The stream behind `ofs_ptr` is the one in the table: no other thread has a session of the same
user in its hands.

`serveVisits` is what a thread does for the connections of one user, one after another.
-/

set_option autoImplicit false

namespace RemoteBackup.Stepwise

open Lib

/-- A call on what the threads share. -/
inductive Call where
  | createDirectories (p : Path)
  | getStream (id : Bytes) (p : Path)
  | usable (id : Bytes)
  | write (id : Bytes) (content : Bytes)
  | flush (id : Bytes)
  | close (id : Bytes)
  | eraseStream (id : Bytes)
  | md5Hash (absolutePath relativePath : Path)
  | remove (p : Path)
  | rename (p q : Path)
  | isEmpty (p : Path)
  | iterate (p : Path)
  | isRegularFile (p : Path)
  | advance (p : Path)
  deriving DecidableEq

/-- What a call returns. Where it can throw a `filesystem_error`, nothing stands for that. -/
abbrev Call.Answer : Call → Type
  | .createDirectories _ => Bool
  | .getStream _ _ => Bool
  | .usable _ => Bool
  | .write _ _ => Unit
  | .flush _ => Unit
  | .close _ => Unit
  | .eraseStream _ => Unit
  | .md5Hash _ _ => Except Thrown Bytes
  | .remove _ => Bool
  | .rename _ _ => Bool
  | .isEmpty _ => Option Bool
  | .iterate _ => Option (List Path)
  | .isRegularFile _ => Option Bool
  | .advance _ => Bool

/-- The answer of `is_regular_file(p)`. -/
def regular (env : Env) (w : World) (p : Path) : Option Bool :=
  if env.fails w.calls (.isRegularFile p) then none
  else
    match w.disk.status p with
    | some (.file _) => some true
    | _ => some false

/-- What a call does to the world. -/
def exec (env : Env) : (c : Call) → World → World × c.Answer
  | .createDirectories p, w => w.createDirectories env p
  | .getStream id p, w => w.getStream env id p
  | .usable id, w => (w, w.usable id)
  | .write id content, w => (w.write env id content, ())
  | .flush id, w => (w.flush id, ())
  | .close id, w => (w.close id, ())
  | .eraseStream id, w => (w.eraseStream id, ())
  | .md5Hash absolutePath relativePath, w => w.md5Hash env absolutePath relativePath
  | .remove p, w => w.remove env p
  | .rename p q, w => w.rename env p q
  | .isEmpty p, w => w.isEmpty env p
  | .iterate p, w => (w.record (.iterate p), RemoteBackup.iterate env w p)
  | .isRegularFile p, w => (w.record (.isRegularFile p), regular env w p)
  | .advance p, w => (w.record (.advance p), !env.fails w.calls (.advance p))

/-- A part of a handler. -/
abbrev Program (α : Type) := Prog Call Call.Answer α

/-- A handler: it ends with the user, and the reply or the reason why the process stopped. -/
abbrev Handler := Program (User × Except Halt Reply)

/-- The process stops. -/
def halted (u : User) (h : Halt) : Handler := .done (u, .error h)

/-- `return close_response(...)`. -/
def answer (u : User) (replies : MessageQueue) (status : TlvType) (err : ErrType) : Handler :=
  .done (u, .ok (closeResponse replies status err))

/-- Go on with the result of a step that can stop the process. -/
def attempt {α : Type} (u : User) (x : Except Halt α) (k : α → Handler) : Handler :=
  match x with
  | .ok a => k a
  | .error h => halted u h

/-! ### SYNC -/

/-- The body of the traversal's loop on one entry. -/
def syncEntry (env : Env) (dir : Dir) (replies : MessageQueue) (absolutePath : Path) :
    Program (Dir × MessageQueue × SyncEnd) :=
  .call (.isRegularFile absolutePath) fun
  | none => .done (dir, replies, .thrown .filesystemError)
  | some false => .done (dir, replies, .done)
  | some true =>
      let relativePath := absolutePath.drop dir.path.length
      .call (.md5Hash absolutePath relativePath) fun
      | .error t => .done (dir, replies, .thrown t)
      | .ok digest =>
          match dir.insertOrAssign env.hash relativePath ⟨true, digest⟩ with
          | (dir, false) => .done (dir, replies, .duplicate)
          | (dir, true) =>
              .done (dir, replies.addTLV TlvType.item.toByte (createSign relativePath digest),
                .done)

/-- The traversal. After each entry the iterator advances, which can throw. -/
def syncLoop (env : Env) : List Path → Dir → MessageQueue →
    Program (Dir × MessageQueue × SyncEnd)
  | [], dir, replies => .done (dir, replies, .done)
  | p :: ps, dir, replies =>
      (syncEntry env dir replies p).bind fun
      | (dir, replies, .done) =>
          .call (.advance p) fun
          | false => .done (dir, replies, .thrown .filesystemError)
          | true => syncLoop env ps dir replies
      | stopped => .done stopped

/-- `request_handler::handle_sync`. -/
def handleSync (env : Env) (u : User) (replies : MessageQueue) : Handler :=
  attempt u u.dirPtr fun dir =>
  .call (.iterate dir.path) fun
  | none =>
      answer { u with dir := some dir.clear } (MessageQueue.ofType MsgType.sync.toByte) .error
        .syncFailed
  | some entries =>
      (syncLoop env entries dir replies).bind fun
      | (dir, replies, .done) =>
          answer { u with dir := some dir, isSynced := true } replies .ok .none
      | (dir, replies, .duplicate) =>
          answer { u with dir := some dir.clear } replies .error .syncFailed
      | (dir, _, .thrown .filesystemError) =>
          answer { u with dir := some dir.clear } (MessageQueue.ofType MsgType.sync.toByte)
            .error .syncFailed
      | (dir, _, .thrown .otherException) => halted { u with dir := some dir } .uncaughtException

/-! ### CREATE and UPDATE -/

/-- The end of `handle_create` and of `handle_update`: the file is there, and its digest is
compared with the one in the ITEM. -/
def checkDigest (env : Env) (u : User) (dir : Dir) (replies : MessageQueue)
    (absolutePath path : Path) (digest : Bytes) (noMatch failed : ErrType) : Handler :=
  let reject err : Handler :=
    .call (.remove absolutePath) fun
    | false => halted { u with dir := some dir } .exitFailure
    | true => answer { u with dir := some (dir.erase env.hash path).1 } replies .error err
  .call (.md5Hash absolutePath path) fun
  | .ok sDigest =>
      if sDigest ≠ digest then reject noMatch
      else answer { u with dir := some dir } replies .ok .none
  | .error .filesystemError => reject failed
  | .error .otherException => halted { u with dir := some dir } .uncaughtException

/-- The block of `handle_create` for the last chunk. -/
def createFinish (env : Env) (u : User) (dir : Dir) (replies : MessageQueue)
    (absolutePath path : Path) (digest : Bytes) : Handler :=
  .call (.close u.id) fun _ =>
  .call (.eraseStream u.id) fun _ =>
  checkDigest env u dir replies absolutePath path digest .createNoMatch .createFailed

/-- `handle_create` from the creation of the parent directories on. -/
def createTransfer (env : Env) (u : User) (dir : Dir) (view : TlvView) (replies : MessageQueue)
    (path : Path) (digest : Bytes) : Handler :=
  let absolutePath := append dir.path path
  .call (.createDirectories (parentPath absolutePath)) fun
  | false => answer u replies .error .createFailed
  | true =>
      .call (.getStream u.id absolutePath) fun isFirst =>
      .call (.usable u.id) fun
      | false => answer u replies .error .createFailed
      | true =>
          attempt u view.value fun content =>
          .call (.write u.id content) fun _ =>
          .call (.flush u.id) fun _ =>
          attempt u view.verifyEnd fun isLast =>
          let dir := noteChunk env dir path (chunkResource isFirst isLast digest tempDigest)
          if isLast then createFinish env u dir replies absolutePath path digest
          else answer { u with dir := some dir } replies .ok .none

/-- The block of `handle_update` for the last chunk. -/
def updateFinish (env : Env) (u : User) (dir : Dir) (replies : MessageQueue)
    (absolutePath tempPath path : Path) (digest : Bytes) : Handler :=
  .call (.close u.id) fun _ =>
  .call (.eraseStream u.id) fun _ =>
  .call (.remove absolutePath) fun
  | false => halted { u with dir := some dir } .exitFailure
  | true =>
      .call (.rename tempPath absolutePath) fun
      | false => halted { u with dir := some dir } .exitFailure
      | true =>
          checkDigest env u dir replies absolutePath path digest .updateNoMatch .updateFailed

/-- `handle_update` from the opening of the stream on. -/
def updateTransfer (env : Env) (u : User) (dir : Dir) (view : TlvView) (replies : MessageQueue)
    (path : Path) (digest oldDigest : Bytes) : Handler :=
  let absolutePath := append dir.path path
  .call (.getStream u.id (tempPath absolutePath)) fun isFirst =>
  .call (.usable u.id) fun
  | false => answer u replies .error .updateFailed
  | true =>
      attempt u view.value fun content =>
      .call (.write u.id content) fun _ =>
      attempt u view.verifyEnd fun isLast =>
      let dir := noteChunk env dir path (chunkResource isFirst isLast digest oldDigest)
      if isLast then
        updateFinish env u dir replies absolutePath (tempPath absolutePath) path digest
      else answer { u with dir := some dir } replies .ok .none

/-! ### ERASE -/

/-- The loop of `handle_erase` that removes emptied directories. `fuel` is as in
`RemoteBackup.cleanup`. -/
def cleanup (dirPath : Path) : Nat → Path → Program Unit
  | 0, _ => .done ()
  | fuel + 1, tmp =>
      if elements tmp = elements dirPath then .done () else
      .call (.isEmpty tmp) fun
      | some true =>
          .call (.remove tmp) fun
          | true => cleanup dirPath fuel (parentPath tmp)
          | false => .done ()
      | _ => .done ()

/-- `handle_erase` from the removal of the file on. -/
def eraseEntry (env : Env) (u : User) (dir : Dir) (replies : MessageQueue) (path : Path) :
    Handler :=
  let absolutePath := append dir.path path
  .call (.remove absolutePath) fun
  | false => answer u replies .error .none
  | true =>
      match dir.erase env.hash path with
      | (dir', erased) =>
          let tmp := parentPath absolutePath
          (cleanup dir.path (tmp.length + 1) tmp).bind fun _ =>
            answer { u with dir := some dir' } replies (if erased then .ok else .error) .none

/-! ### Requests and connections -/

/-- What follows the checks of a request. -/
def perform (env : Env) (u : User) : Task → Handler
  | .stop h => halted u h
  | .refuse replies err => answer u replies .error err
  | .keepAlive replies => answer u replies .ok .none
  | .authenticate username replies =>
      answer
        { u with
          id := md5HashString env username
          username := username
          dir := some (Dir.getInstance
            (append (toPath env.backupRoot) (md5HashString env username)))
          isAuth := true }
        replies .ok .none
  | .sync replies => handleSync env u replies
  | .create dir view replies path digest => createTransfer env u dir view replies path digest
  | .update dir view replies path digest oldDigest =>
      updateTransfer env u dir view replies path digest oldDigest
  | .erase dir replies path => eraseEntry env u dir replies path

/-- `request_handler::handle_request`. -/
def handleRequest (env : Env) (u : User) (request : Message) : Handler :=
  perform env u (taskOf env u request)

/-- What came of the requests of a connection: the user, how each of them ended, and whether the
process still runs. -/
structure Served where
  user : User
  results : List (Except Halt Reply)
  running : Bool

/-- The requests of one connection, until one of them stops the process. -/
def serveRequests (env : Env) (u : User) : List Message → Program Served
  | [] => .done ⟨u, [], true⟩
  | m :: ms =>
      (handleRequest env u m).bind fun
      | (u, .error h) => .done ⟨u, [.error h], false⟩
      | (u, .ok r) =>
          (serveRequests env u ms).bind fun served =>
            .done { served with results := .ok r :: served.results }

/-- A connection from beginning to end. `isAuth` and `isSynced` are as in `User.fresh`. -/
structure Visit where
  isAuth : Bool
  isSynced : Bool
  ip : Bytes
  requests : List Message

/-- The connections of one user, one after another. Each is shut down before the next begins. -/
def serveVisits (env : Env) : List Visit → Program (List (Except Halt Reply))
  | [] => .done []
  | v :: vs =>
      (serveRequests env (User.fresh v.isAuth v.isSynced v.ip) v.requests).bind fun served =>
        if served.running then
          .call (.eraseStream served.user.id) fun _ =>
            (serveVisits env vs).bind fun results => .done (served.results ++ results)
        else .done served.results

/-- One of the requests has stopped the process. -/
def stopped (results : List (Except Halt Reply)) : Bool :=
  results.any fun
    | .ok _ => false
    | .error _ => true

end RemoteBackup.Stepwise
