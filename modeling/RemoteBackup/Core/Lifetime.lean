import RemoteBackup.Core.Server

/-!
# `RemoteBackup.Core.Lifetime`: a server that is started again

`main` runs one server until the process ends: at a signal, by `std::exit`, by an exception that
nobody catches, or from outside. The next server finds the tree that was left, and nothing else of
it. The connections are gone, and so are the streams. Of the bytes that were in their buffers some
are on the disk, written while the process ended, and the others are lost.
-/

set_option autoImplicit false

namespace RemoteBackup

open Lib

/-- What can happen next. `drains` are the writes while the process ends, each with the user whose
stream it is and the number of bytes. -/
inductive Happening where
  | event (e : Event)
  | restart (drains : List (Bytes × Nat))

namespace Server

/-- The writes while the process ends. -/
def drained (w : World) (drains : List (Bytes × Nat)) : World :=
  drains.foldl (fun w d => w.drain d.1 d.2) w

/-- One happening. A server that has stopped can still be started again. -/
def live (env : Env) (s : Server) : Happening → Server
  | .event e => s.step env e
  | .restart drains => start (World.ofDisk (drained s.world drains).disk)

end Server

end RemoteBackup
