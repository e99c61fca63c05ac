import RemoteBackup.Communication.TlvView

/-!
# `RemoteBackup.Communication.Print`: a message on the standard output

`operator<<` of `communication/message.cpp`. `connection` prints every request before it calls the
request handler, and every message that it sends. The value of a CONTENT is not printed.

The loop has no bound of its own. `printLoop` makes at most `fuel` rounds and gives nothing when
`next_tlv` still returns true. What was printed before the process stops is left out.
-/

set_option autoImplicit false

namespace RemoteBackup

open Lib

/-- A number as an `ostream` prints it. -/
def decimal (n : Nat) : Bytes := (Nat.toDigits 10 n).map (fun c => UInt8.ofNat c.toNat)

/-- A line of the output: a label, a text and `std::endl`. -/
def printLine (label : String) (text : Bytes) : Bytes := ascii label ++ text ++ [10]

namespace TlvView

/-- The body of the loop, on the TLV that `next_tlv` has set. -/
def print (v : TlvView) : Except Halt Bytes := do
  let tlvType ← v.tlvType
  let length ← v.length
  let lines := printLine "\tT: " (decimal tlvType.toNat) ++ printLine "\tL: " (decimal length.toNat)
  if tlvType ≠ TlvType.content.toByte then
    let value ← v.value
    pure (lines ++ printLine "\tV: " value)
  else pure lines

/-- The loop of `operator<<`. -/
def printLoop : Nat → TlvView → Except Halt (Option Bytes)
  | 0, _ => .ok none
  | fuel + 1, v => do
      let (more, v) ← v.nextTlv
      if more then
        let lines ← v.print
        let rest ← printLoop fuel v
        pure (rest.map (lines ++ ·))
      else pure (some [])

end TlvView

namespace Message

/-- `operator<<` with at most `fuel` rounds of its loop. The type of an empty buffer is read
without a check. -/
def print (fuel : Nat) (m : Message) : Except Halt (Option Bytes) :=
  match m.msgType with
  | none => .error .undefinedBehavior
  | some msgType => do
      let rest ← (TlvView.ofMessage m).printLoop fuel
      pure (rest.map (printLine "Type: " (decimal msgType.toNat) ++ ·))

/-- `operator<<`. A print that is not over after as many rounds as the message has bytes is never
over (`print_endless`), and then there is no text. -/
def printed (m : Message) : Except Halt (Option Bytes) := m.print (m.size + 1)

end Message

end RemoteBackup
