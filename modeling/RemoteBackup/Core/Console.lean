import RemoteBackup.Communication.Print
import RemoteBackup.Core.Server

/-!
# `RemoteBackup.Core.Console`: the threads of the server, and what they print first

`server::run` starts a pool of threads, and every handler runs on one of them.
`connection::handle_request` prints the request before it calls the request handler. So a request
can stop the process, or keep its thread for ever, before it is served (`Message.printed`). A
thread that does not come back also keeps the strand of its connection, and no other handler of
the connection runs. When no thread is left, nothing happens any more.

The print of a reply is not part of these steps.
-/

set_option autoImplicit false

namespace RemoteBackup

/-- The connection on whose strand the handlers of an event run. -/
def Event.strand : Event → Nat
  | .accept c _ _ _ => c
  | .request c _ => c
  | .shutdown c => c

/-- The server with its threads. `threads` is the number of those that come back, `blocked` are
the connections of the others. -/
structure Console where
  server : Server
  threads : Nat
  blocked : List Nat

namespace Console

/-- The server before its first connection. -/
def start (threadPoolSize : Nat) (w : World) : Console := ⟨Server.start w, threadPoolSize, []⟩

/-- `connection::handle_request` on a live connection, from the print on. -/
def handleRequest (env : Env) (s : Console) (c : Nat) (m : Message) : Console :=
  match m.printed with
  | .error h => { s with server := { s.server with halt := some h } }
  | .ok none => { s with threads := s.threads - 1, blocked := c :: s.blocked }
  | .ok (some _) => { s with server := s.server.step env (.request c m) }

/-- One event. -/
def step (env : Env) (s : Console) (e : Event) : Console :=
  if s.server.halt.isSome || s.threads == 0 || s.blocked.contains e.strand then s else
  match e with
  | .request c m =>
      match s.server.sessions c with
      | some _ => s.handleRequest env c m
      | none => s
  | e => { s with server := s.server.step env e }

end Console

end RemoteBackup
