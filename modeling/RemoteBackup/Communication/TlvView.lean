import RemoteBackup.Communication.Message

/-!
# `RemoteBackup.Communication.TlvView`: iterating the TLVs of a message

`communication/tlv_view.cpp`. The view's iterators are offsets from the start of the
buffer. They are integers, because a declared length of `2 ^ 31` or more moves `data_end_`
backwards: a byte is promoted to a 32-bit `int`, shifted, and sign-extended when it is
added to the 64-bit `length_`, which then serves as a signed iterator offset (`shiftIn`).

A read outside the buffer is `Halt.undefinedBehavior`. An accessor of a view that is not
valid throws `std::logic_error`.
-/

set_option autoImplicit false

namespace RemoteBackup

open Lib

/-- The byte under an iterator. -/
def readAt (raw : Bytes) (i : Int) : Except Halt UInt8 :=
  if 0 ≤ i then
    match raw[i.toNat]? with
    | some b => .ok b
    | none => .error .undefinedBehavior
  else .error .undefinedBehavior

/-- `*data_begin_++ << k` as it is added to `length_`: a 32-bit shift, then a sign extension
to 64 bits. -/
def shiftIn (b : UInt8) (k : Nat) : BitVec 64 := ((b.toBitVec.setWidth 32) <<< k).signExtend 64

/-- `tlv_view`. The constructor leaves `tlv_type_` and `length_` unset, and no accessor
shows them before `next_tlv` has set them. -/
structure TlvView where
  raw : Bytes
  tlvType_ : UInt8
  length_ : BitVec 64
  dataBegin_ : Int
  dataEnd_ : Int
  valid_ : Bool
  finished_ : Bool
  deriving DecidableEq

namespace TlvView

/-- `tlv_view::tlv_view`. -/
def ofMessage (m : Message) : TlvView where
  raw := m.raw
  tlvType_ := 0
  length_ := 0
  dataBegin_ := 1
  dataEnd_ := 1
  valid_ := false
  finished_ := false

/-- `tlv_view::next_tlv`. -/
def nextTlv (v : TlvView) : Except Halt (Bool × TlvView) :=
  if v.finished_ then .ok (false, v)
  else if v.dataEnd_ = v.raw.length then
    .ok (false, { v with dataBegin_ := v.dataEnd_, finished_ := true, valid_ := false })
  else do
    let tlvType ← readAt v.raw v.dataEnd_
    let b0 ← readAt v.raw (v.dataEnd_ + 1)
    let b1 ← readAt v.raw (v.dataEnd_ + 2)
    let b2 ← readAt v.raw (v.dataEnd_ + 3)
    let b3 ← readAt v.raw (v.dataEnd_ + 4)
    let length := 0 + shiftIn b0 24 + shiftIn b1 16 + shiftIn b2 8 + shiftIn b3 0
    .ok (true, { v with
      tlvType_ := tlvType
      length_ := length
      dataBegin_ := v.dataEnd_ + 5
      dataEnd_ := v.dataEnd_ + 5 + length.toInt
      valid_ := true })

/-- `tlv_view::tlv_type`. -/
def tlvType (v : TlvView) : Except Halt UInt8 :=
  if v.valid_ then .ok v.tlvType_ else .error .uncaughtException

/-- `tlv_view::length`. -/
def length (v : TlvView) : Except Halt (BitVec 64) :=
  if v.valid_ then .ok v.length_ else .error .uncaughtException

/-- The bytes of `[cbegin(), cend())`, when that is a range inside the buffer. -/
def value (v : TlvView) : Except Halt Bytes :=
  if v.valid_ then
    if 0 ≤ v.dataBegin_ ∧ v.dataBegin_ ≤ v.dataEnd_ ∧ v.dataEnd_ ≤ v.raw.length then
      .ok ((v.raw.drop v.dataBegin_.toNat).take (v.dataEnd_ - v.dataBegin_).toNat)
    else .error .undefinedBehavior
  else .error .uncaughtException

/-- The loop of `verify_end`: `k` more zero bytes towards the front, then the type byte of
an END TLV. -/
def verifyEndFrom (raw : Bytes) : Nat → Int → Except Halt Bool
  | 0, ptr => do
      let b ← readAt raw ptr
      pure (b == TlvType.end_.toByte)
  | k + 1, ptr => do
      let b ← readAt raw ptr
      if b ≠ 0 then pure false else verifyEndFrom raw k (ptr - 1)

/-- `tlv_view::verify_end`. -/
def verifyEnd (v : TlvView) : Except Halt Bool := verifyEndFrom v.raw 4 (v.raw.length - 1)

/-- `next_tlv() && tlv_type() == t`, the test the handlers make between two TLVs. -/
def nextIs (v : TlvView) (t : TlvType) : Except Halt (Bool × TlvView) := do
  let (more, v) ← v.nextTlv
  if more then
    let tlvType ← v.tlvType
    pure (tlvType == t.toByte, v)
  else pure (false, v)

end TlvView

end RemoteBackup
