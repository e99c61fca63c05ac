import RemoteBackup.Core.Cycle

/-!
# `RemoteBackup.Core.Network`: the acceptor and its connections

`core/server.cpp` with every connection on its strand. Where `RemoteBackup.Core.Server` takes a
request as one event, an event here is what one of the threads of `server::run` takes from the
`io_context`: the completion of an accept, of an operation on the socket of a connection or of a
wait of its timer, or a signal. A handler runs as a whole; two threads inside two handlers at
once are not part of the model.

The handlers of a connection's operations hold it alive. Once none of them is left the connection
is destroyed and its timer with it. The completion of a wait that was already queued is delivered
all the same, and its handler uses the connection unless it is told that the wait was cancelled.
A connection whose request is printed for ever lives on: its handler has not returned. The thread
that it keeps is not counted here. Where no thread is left, no event happens any more.
-/

set_option autoImplicit false

namespace RemoteBackup

open Lib

/-- `server`, the connections that it has started, and the world that they share. `accepted`
is the number that `new_connection_ptr_` will have. `stopped` is set by `io_.stop()`, and
`halt` once the process has stopped otherwise. -/
structure Network where
  world : World
  conns : Nat → Option Cycle
  accepted : Nat
  stopped : Bool
  halt : Option Halt

namespace Network

/-- What can happen next. An accept completes, without an error or with one. `endpoint` is
nothing where `connection::start` throws because the client has already gone; the other values
are as in `Cycle.start`. -/
inductive Event where
  | accept (endpoint : Option Bytes) (isAuth isSynced : Bool) (stream : Bytes)
  | acceptFailed
  | connection (c : Nat) (e : Cycle.Event)
  | signal

/-- The constructor of `server`: nothing but an accept is pending. -/
def start (w : World) : Network := ⟨w, fun _ => none, 0, false, none⟩

/-- `server::handle_accept` without an error. Either way the next accept begins. -/
def handleAccept (n : Network) (endpoint : Option Bytes) (isAuth isSynced : Bool)
    (stream : Bytes) : Network :=
  match endpoint with
  -- No thread of the pool catches what leaves a handler.
  | none => { n with halt := some .uncaughtException }
  | some ip =>
      { n with
        conns := Function.update n.conns n.accepted
          (some (Cycle.start n.world isAuth isSynced ip stream))
        accepted := n.accepted + 1 }

/-- An event of a connection that was destroyed: a wait that was not cancelled in time. -/
def dangling (n : Network) (s : Cycle) : Cycle.Event → Network
  | .deliver k =>
      match s.queued[k]? with
      | some (_, .operationAborted) => n
      | some _ => { n with halt := some .undefinedBehavior }
      | none => n
  | _ => n

/-- An event of a connection. What the others do to the world is no event of it. -/
def connectionStep (env : Env) (n : Network) (c : Nat) (s : Cycle) (e : Cycle.Event) : Network :=
  if s.printing then n
  else if s.pending = [] then n.dangling s e
  else
    match e with
    | .elsewhere _ => n
    | e =>
        let s' := Cycle.step env { s with world := n.world } e
        { n with
          world := s'.world
          conns := Function.update n.conns c (some s')
          halt := s'.halt }

/-- One event. An event that cannot happen changes nothing. -/
def step (env : Env) (n : Network) (e : Event) : Network :=
  if n.stopped || n.halt.isSome then n else
  match e with
  | .accept endpoint isAuth isSynced stream => n.handleAccept endpoint isAuth isSynced stream
  | .acceptFailed => n
  | .connection c e =>
      match n.conns c with
      | some s => n.connectionStep env c s e
      | none => n
  -- `server::handle_stop`.
  | .signal => { n with stopped := true }

end Network

end RemoteBackup
