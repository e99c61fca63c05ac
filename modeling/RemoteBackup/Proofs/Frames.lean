import Mathlib.Tactic.Positivity
import RemoteBackup.Core.Connection
import RemoteBackup.Lib.Run

/-!
# `RemoteBackup.Proofs.Frames`: the messages a connection hands over

A frame is a header of eight bytes and as many bytes as the header says.

* `readPayload_ends`: the ways a frame can end once its header was read.
* `frame_faithful_iff`: a frame is received faithfully unless its header is 0 or larger
  than the buffer, and all the bytes that are read for it come, and its vector can be made.
* `frames_faithful_iff`: the same along every stream.
-/

set_option autoImplicit false

namespace RemoteBackup.Proofs

open Lib

/-- The header of the next frame of a stream. -/
def nextHeader (stream : Bytes) : Nat := headerOf (stream.take headerSize)

/-- A frame is received as it was sent. A message that is handed over is the bytes behind the
header, as many as the header says, between 1 and the size of the buffer, and the next frame
is read from right behind it. Any other frame ends in a shutdown. -/
def Faithful (c : Connection) (allocates : Nat → Bool) : Prop :=
  c.live = true →
    match c.readRequest allocates with
    | (.message m, c') =>
        1 ≤ nextHeader c.stream ∧ nextHeader c.stream ≤ chunkSize ∧
          m.raw = (c.stream.drop headerSize).take (nextHeader c.stream) ∧
          m.raw.length = nextHeader c.stream ∧
          c'.stream = c.stream.drop (headerSize + nextHeader c.stream)
    | (.shutdown, c') => c'.live = false
    | (.undefined, _) => False

/-- The frame's header is in range, or the stream ends before what is read for the frame has
come, or the vector of the message cannot be made. -/
def FrameFits (c : Connection) (allocates : Nat → Bool) : Prop :=
  c.live = true →
    (1 ≤ nextHeader c.stream ∧ nextHeader c.stream ≤ chunkSize) ∨
      c.stream.length < headerSize + min chunkSize (nextHeader c.stream) ∨
      allocates (nextHeader c.stream) = false

/-- The copy into the message: the vector cannot be made, or the message is the front of the
buffer, or it is empty, or the copy runs past the buffer. -/
theorem handleRequest_ends (c : Connection) (allocates : Nat → Bool) (header : Nat) :
    (allocates header = false ∧ c.handleRequest allocates header = (.shutdown, c.close)) ∨
    (allocates header = true ∧ 1 ≤ header ∧ header ≤ chunkSize ∧
      c.handleRequest allocates header = (.message ⟨c.buffer.take header⟩, c)) ∨
    (allocates header = true ∧ (header = 0 ∨ chunkSize < header) ∧
      c.handleRequest allocates header = (.undefined, c.close)) := by
  unfold Connection.handleRequest
  rw [c.buffer_length]
  cases allocates header with
  | false => exact Or.inl ⟨rfl, rfl⟩
  | true =>
      right
      by_cases hzero : header = 0
      · exact Or.inr ⟨rfl, Or.inl hzero, by simp [hzero]⟩
      by_cases hle : header ≤ chunkSize
      · exact Or.inl ⟨rfl, by omega, hle, by simp [hzero, hle]⟩
      · exact Or.inr ⟨rfl, Or.inr (by omega), by simp [hzero, hle]⟩

/-- The ways the payload can end: the stream ends in it, the vector cannot be made, the
message lies inside the buffer, or it is empty or its copy runs past the buffer. -/
theorem readPayload_ends (c : Connection) (allocates : Nat → Bool) (header : Nat)
    (stream : Bytes) :
    (stream.length < min chunkSize header ∧
      c.readPayload allocates header stream = (.shutdown, c.close)) ∨
    (min chunkSize header ≤ stream.length ∧ ∃ c', c'.stream = stream.drop (min chunkSize header) ∧
      ((allocates header = false ∧
          c.readPayload allocates header stream = (.shutdown, c'.close)) ∨
        (allocates header = true ∧ 1 ≤ header ∧ header ≤ chunkSize ∧
          c.readPayload allocates header stream = (.message ⟨stream.take header⟩, c')) ∨
        (allocates header = true ∧ (header = 0 ∨ chunkSize < header) ∧
          c.readPayload allocates header stream = (.undefined, c'.close)))) := by
  unfold Connection.readPayload asyncRead
  by_cases hbody : min chunkSize header ≤ stream.length
  · rw [dif_pos hbody]
    have hsize : (stream.take (min chunkSize header)).length ≤ chunkSize := by
      rw [List.length_take]
      omega
    refine Or.inr ⟨hbody, c.fill _ (stream.drop (min chunkSize header)) hsize, rfl, ?_⟩
    rcases handleRequest_ends (c.fill _ (stream.drop (min chunkSize header)) hsize) allocates
      header with h | ⟨halloc, hpos, hfits, h⟩ | h
    · exact Or.inl h
    · -- The header is not clamped, so the copy takes what has just been read.
      refine Or.inr (Or.inl ⟨halloc, hpos, hfits, h.trans ?_⟩)
      have hmin : min chunkSize header = header := by omega
      have hlen : (stream.take header).length = header := by
        rw [List.length_take]
        omega
      simp only [Connection.fill, hmin]
      rw [List.take_append_of_le_length (by omega), List.take_of_length_le (by omega)]
    · exact Or.inr (Or.inr h)
  · rw [dif_neg hbody]
    exact Or.inl ⟨by omega, rfl⟩

/-- One frame is received faithfully exactly when it fits. -/
theorem frame_faithful_iff (c : Connection) (allocates : Nat → Bool) :
    Faithful c allocates ↔ FrameFits c allocates := by
  unfold Faithful FrameFits
  refine imp_congr_right fun _ => ?_
  unfold Connection.readRequest
  by_cases hhead : headerSize ≤ c.stream.length
  swap
  · -- The stream ends in the header.
    have hnone : asyncRead headerSize c.stream = none := dif_neg hhead
    rw [hnone]
    exact ⟨fun _ => Or.inr (Or.inl (by omega)), fun _ => rfl⟩
  have hsome : asyncRead headerSize c.stream =
      some (⟨_, List.length_take_of_le hhead⟩, c.stream.drop headerSize) := dif_pos hhead
  rw [hsome]
  change (match c.readPayload allocates (nextHeader c.stream) (c.stream.drop headerSize) with
    | (.message m, c') => _
    | (.shutdown, c') => _
    | (.undefined, _) => _) ↔ _
  have hlength : (c.stream.drop headerSize).length = c.stream.length - headerSize :=
    List.length_drop
  rcases readPayload_ends c allocates (nextHeader c.stream) (c.stream.drop headerSize) with
    ⟨hlt, h⟩ | ⟨hle, c', hstream, ⟨halloc, h⟩ | ⟨halloc, hpos, hfits, h⟩ | ⟨halloc, hover, h⟩⟩
  · -- The stream ends in the payload.
    rw [h]
    exact ⟨fun _ => Or.inr (Or.inl (by omega)), fun _ => rfl⟩
  · rw [h]
    exact ⟨fun _ => Or.inr (Or.inr halloc), fun _ => rfl⟩
  · -- A message is handed over, and it is the one that was sent.
    rw [h]
    rw [List.drop_drop] at hstream
    have hmin : min chunkSize (nextHeader c.stream) = nextHeader c.stream := by omega
    rw [hmin] at hle hstream
    refine ⟨fun _ => Or.inl ⟨hpos, hfits⟩, fun _ => ⟨hpos, hfits, rfl, ?_, hstream⟩⟩
    rw [List.length_take, List.length_drop]
    omega
  · -- The message has no byte, or its copy runs past the buffer.
    rw [h]
    constructor
    · exact fun hfalse => hfalse.elim
    · rintro (⟨hpos, hin⟩ | hlt | hnot)
      · omega
      · omega
      · rw [halloc] at hnot
        exact absurd hnot (by simp)

/-- Along every stream of a client, and whatever vectors can be made, every frame is received
faithfully exactly when every frame fits. -/
theorem frames_faithful_iff (stream : Bytes) (allocations : List (Nat → Bool)) :
    Along Connection.step Faithful (Connection.start stream) allocations ↔
      Along Connection.step FrameFits (Connection.start stream) allocations :=
  along_congr (along_of_forall (fun _ _ => trivial) _ _) fun c allocates _ =>
    frame_faithful_iff c allocates

/-- A frame whose header is 4097 and which brings 4097 bytes: the copy runs past the buffer. A
frame whose header is 0: the print reads the first byte of an empty message. -/
theorem not_faithful_oversized :
    ¬ Along Connection.step Faithful
        (Connection.start ([1, 16, 0, 0, 0, 0, 0, 0] ++ List.replicate 4097 6))
        [fun n => n < 2 ^ 63] ∧
      ¬ Along Connection.step Faithful (Connection.start [0, 0, 0, 0, 0, 0, 0, 0])
        [fun n => n < 2 ^ 63] := by
  rw [Along, Along, frame_faithful_iff, FrameFits, Along, Along, frame_faithful_iff, FrameFits]
  decide +kernel

end RemoteBackup.Proofs
