import RemoteBackup.Core.RequestHandler
import RemoteBackup.Lib.Run

/-!
# `RemoteBackup.Core.Server`: all connections together

The server as one state machine. Its connections share the world of the request handler.
An event is a new connection, one request of a connection, or the shutdown of a connection,
and a run is any interleaving of them. The server serves a request as a whole; two threads
inside two handlers at once are not part of the model.

The requests are any byte strings. What `connection` can hand over is in
`RemoteBackup.Core.Connection`.
-/

set_option autoImplicit false

namespace RemoteBackup

open Lib

/-- The server. `sessions` are the live connections. `halt` is set once the process has
stopped. -/
structure Server where
  world : World
  sessions : Nat → Option User
  halt : Option Halt

/-- What can happen next. -/
inductive Event where
  | accept (c : Nat) (isAuth isSynced : Bool) (ip : Bytes)
  | request (c : Nat) (m : Message)
  | shutdown (c : Nat)

namespace Server

/-- The server before its first connection. -/
def start (w : World) : Server := ⟨w, fun _ => none, none⟩

/-- One request of a live connection. -/
def serve (env : Env) (s : Server) (c : Nat) (u : User) (m : Message) : Server :=
  let o := handleRequest env s.world u m
  { world := o.world
    sessions := Function.update s.sessions c (some o.user)
    halt :=
      match o.result with
      | .ok _ => none
      | .error h => some h }

/-- One event. An event that cannot happen, such as a request on a connection that is not
there or any event after the process has stopped, changes nothing. -/
def step (env : Env) (s : Server) (e : Event) : Server :=
  if s.halt.isSome then s else
  match e with
  | .accept c isAuth isSynced ip =>
      match s.sessions c with
      | some _ => s
      | none =>
          { s with sessions := Function.update s.sessions c (some (User.fresh isAuth isSynced ip)) }
  | .request c m =>
      match s.sessions c with
      | some u => s.serve env c u m
      | none => s
  | .shutdown c =>
      match s.sessions c with
      | some u =>
          { s with
            world := s.world.eraseStream u.id
            sessions := Function.update s.sessions c none }
      | none => s

end Server

end RemoteBackup
