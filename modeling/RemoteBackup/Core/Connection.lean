import RemoteBackup.Communication.Message

/-!
# `RemoteBackup.Core.Connection`: reading requests from a client

The receiving half of `core/connection.cpp`: `read_request` and the part of
`handle_request` before the request handler is called. One step reads one frame, a header
of eight bytes and what follows it.

The header is used twice. `boost::asio::buffer(buffer_, header_)` reads at most the
size of `buffer_`, and `std::next(buffer_.begin(), header_)` takes it as it is. A copy that
runs past the buffer is `Reception.undefined`, unless the vector cannot be made: its
constructor then throws, and the connection shuts down. Before the request handler is called the
message is printed, and the print begins with the type. So a message without a byte is
`Reception.undefined` as well. The rest of the print is in `RemoteBackup.Communication.Print`.
-/

set_option autoImplicit false

namespace RemoteBackup

open Lib

/-- `sizeof(header_)`. -/
def headerSize : Nat := 8

/-- `header_`, read in place: a 64-bit number, least significant byte first. -/
def headerOf (bytes : Bytes) : Nat := bytes.foldr (fun b n => b.toNat + 256 * n) 0

/-- `async_read` into `n` bytes: it fills them all or reports an error. -/
def asyncRead (n : Nat) (stream : Bytes) : Option ({ bytes : Bytes // bytes.length = n } × Bytes) :=
  if h : n ≤ stream.length then some (⟨stream.take n, List.length_take_of_le h⟩, stream.drop n)
  else none

/-- A connection that reads. `stream` is what the client sends and no read has taken yet.
`live` is false once the connection was shut down or the process is gone. -/
structure Connection where
  buffer : Bytes
  stream : Bytes
  live : Bool
  buffer_length : buffer.length = chunkSize

/-- What one frame leads to. -/
inductive Reception where
  | message (m : Message)
  | shutdown
  | undefined
  deriving DecidableEq

namespace Connection

/-- A new connection, whose client sends `stream`. -/
def start (stream : Bytes) : Connection where
  buffer := List.replicate chunkSize 0
  stream := stream
  live := true
  buffer_length := List.length_replicate

/-- The buffer after a read that filled its first bytes. -/
def fill (c : Connection) (body rest : Bytes) (h : body.length ≤ chunkSize) : Connection where
  buffer := body ++ c.buffer.drop body.length
  stream := rest
  live := c.live
  buffer_length := by
    rw [List.length_append, List.length_drop, c.buffer_length]
    omega

/-- The connection after `shutdown`. -/
def close (c : Connection) : Connection := { c with live := false }

/-- `connection::handle_request` up to the print of the type. `allocates` tells for which sizes
the vector of the message can be made. -/
def handleRequest (allocates : Nat → Bool) (c : Connection) (header : Nat) :
    Reception × Connection :=
  if !allocates header then (.shutdown, c.close)
  -- `operator<<` reads the first byte of the vector, whether it has one or not.
  else if header = 0 then (.undefined, c.close)
  else if header ≤ c.buffer.length then (.message ⟨c.buffer.take header⟩, c)
  else (.undefined, c.close)

/-- The inner read of `connection::read_request`: at most the size of the buffer. -/
def readPayload (allocates : Nat → Bool) (c : Connection) (header : Nat) (stream : Bytes) :
    Reception × Connection :=
  match asyncRead (min chunkSize header) stream with
  | none => (.shutdown, c.close)
  | some (body, rest) =>
      (c.fill body.1 rest (body.2.trans_le (Nat.min_le_left _ _))).handleRequest allocates header

/-- `connection::read_request`: a header, then the payload. -/
def readRequest (allocates : Nat → Bool) (c : Connection) : Reception × Connection :=
  match asyncRead headerSize c.stream with
  | none => (.shutdown, c.close)
  | some (head, rest) => c.readPayload allocates (headerOf head.1) rest

/-- One frame of a live connection. -/
def step (c : Connection) (allocates : Nat → Bool) : Connection :=
  if c.live then (c.readRequest allocates).2 else c

end Connection

end RemoteBackup
