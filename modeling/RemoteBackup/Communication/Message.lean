import RemoteBackup.Communication.Types

/-!
# `RemoteBackup.Communication.Message`: messages and reply queues

`communication/message.cpp` and `communication/message_queue.cpp`. A message is its raw
buffer: the type byte, then TLV segments of a type byte, a four-byte big-endian length and
the value. A `MessageQueue` spreads the TLVs of one reply over messages of at most
`chunkSize` bytes where it can.

The second loop of `add_TLV` counts with an `int`. It copies the whole value as long as the
value is shorter than `2 ^ 31` bytes, and only such values are meant here.
-/

set_option autoImplicit false

namespace RemoteBackup

open Lib

/-- A message: the buffer behind `raw_msg_ptr_`. -/
structure Message where
  raw : Bytes
  deriving DecidableEq

namespace Message

/-- `message::message(MSG_TYPE)`. -/
def ofType (msgType : UInt8) : Message := ⟨[msgType]⟩

/-- The four length bytes that `add_TLV` pushes, most significant first. -/
def lengthBytes (length : Nat) : Bytes :=
  (List.range 4).map (fun i => UInt8.ofNat ((length >>> ((3 - i) * 8)) &&& 0xFF))

/-- `message::add_TLV`. -/
def addTLV (m : Message) (tlvType : UInt8) (value : Bytes) : Message :=
  ⟨m.raw ++ (tlvType :: (lengthBytes value.length ++ value))⟩

/-- `message::msg_type`. Nothing when the buffer is empty: the source reads its first byte
without a check. -/
def msgType (m : Message) : Option UInt8 := m.raw.head?

/-- `message::size`. -/
def size (m : Message) : Nat := m.raw.length

end Message

/-- `message_queue::CHUNK_SIZE`. -/
def chunkSize : Nat := 4096

/-- `message_queue`. -/
structure MessageQueue where
  msgs : List Message
  msgType : UInt8
  error : Bool
  deriving DecidableEq

namespace MessageQueue

/-- `message_queue::message_queue`: one message without TLVs. -/
def ofType (msgType : UInt8) : MessageQueue := ⟨[Message.ofType msgType], msgType, false⟩

/-- `message_queue::add_TLV`. A queue that grows is never empty, so the last branch, where
`back()` has no element to give, is not taken. -/
def addTLV (q : MessageQueue) (tlvType : UInt8) (value : Bytes) : MessageQueue :=
  { q with
    msgs :=
      match q.msgs.getLast? with
      | some last =>
          if last.size + 1 + 4 + value.length ≤ chunkSize then
            q.msgs.dropLast ++ [last.addTLV tlvType value]
          else q.msgs ++ [(Message.ofType q.msgType).addTLV tlvType value]
      | none => []
    error := q.error || tlvType == TlvType.error.toByte }

/-- `message_queue::verify_error`. -/
def verifyError (q : MessageQueue) : Bool := q.error

end MessageQueue

end RemoteBackup
