import RemoteBackup.Lib.Packing
import RemoteBackup.Proofs.WriteChain

/-!
# `RemoteBackup.Proofs.ReplyChunks`: the messages of a queue

`message_queue::add_TLV` packs TLVs into messages of `CHUNK_SIZE` bytes in the order in which they
come, as `Lib.Packing` packs items into bins: a message is a bin that weighs its type byte to begin
with.

* `addTLV_packs`: one call places one TLV.
* `queue_chunked`: the messages of a queue after any calls, at least one, with values that fit
  into a message.
-/

set_option autoImplicit false

namespace RemoteBackup.Proofs

open Lib

/-- What a TLV takes of a message: its type, its length field and its value. -/
def tlvSize (p : UInt8 × Bytes) : Nat := 1 + 4 + p.2.length

/-- The size of a message is the load of its TLVs over the type byte. -/
theorem encode_size (msgType : UInt8) (tlvs : List (UInt8 × Bytes)) :
    (encode msgType tlvs).size = load 1 tlvSize tlvs := by
  have hsegment : ∀ p : UInt8 × Bytes, (segment p).length = tlvSize p := by
    intro p
    simp [segment, Message.lengthBytes, tlvSize]
    omega
  rw [Message.size, encode_raw, List.length_cons, List.length_flatMap, funext hsegment, load]
  omega

/-- One call puts the TLV into the last message, or into a new one when there is no room. -/
theorem addTLV_packs {q : MessageQueue} {parts : List (List (UInt8 × Bytes))}
    (hmsgs : q.msgs = parts.map (encode q.msgType)) (hparts : parts ≠ []) (p : UInt8 × Bytes) :
    (q.addTLV p.1 p.2).msgs =
      (Lib.place 1 tlvSize chunkSize parts p).map (encode q.msgType) := by
  obtain ⟨init, last, rfl⟩ := parts.eq_nil_or_concat'.resolve_left hparts
  rw [List.map_append, List.map_singleton] at hmsgs
  rw [place_concat, ← encode_size q.msgType]
  simp only [MessageQueue.addTLV, hmsgs, List.getLast?_concat, List.dropLast_concat]
  have hroom : (encode q.msgType last).size + 1 + 4 + p.2.length =
      (encode q.msgType last).size + tlvSize p := by
    rw [tlvSize]
    omega
  rw [hroom]
  split
  · rw [List.map_append, List.map_singleton, encode_append]
  · rw [List.map_append, List.map_append, List.map_singleton]
    rfl

/-- The calls on a fresh queue pack the TLVs. Induction from the last call. -/
theorem queueOf_packs (msgType : UInt8) (tlvs : List (UInt8 × Bytes)) :
    (queueOf msgType tlvs).msgType = msgType ∧
      (queueOf msgType tlvs).msgs =
        (run (Lib.place 1 tlvSize chunkSize) [[]] tlvs).map (encode msgType) ∧
      run (Lib.place 1 tlvSize chunkSize) [[]] tlvs ≠ [] ∧
      ((queueOf msgType tlvs).verifyError = true ↔ ∃ p ∈ tlvs, p.1 = TlvType.error.toByte) := by
  induction tlvs using List.reverseRecOn with
  | nil => exact ⟨rfl, rfl, List.cons_ne_nil _ _, iff_of_false Bool.false_ne_true (by simp)⟩
  | append_singleton tlvs p ih =>
      obtain ⟨htype, hmsgs, hparts, herror⟩ := ih
      rw [queueOf_append, run_append, run_singleton]
      refine ⟨htype, ?_, place_ne_nil _ _, ?_⟩
      · have hpacks := addTLV_packs (by rw [hmsgs, htype]) hparts p
        rwa [htype] at hpacks
      · rw [MessageQueue.verifyError] at herror ⊢
        rw [addTLV_error, Bool.or_eq_true, herror, beq_iff_eq]
        simp

/-- The queue carries the TLVs in messages that hold `parts`, in this order: a reader of a message
sees its part, whole. No message is without a TLV or over the limit, and the first TLV of a message
did not fit into the message before. The queue knows whether there was an ERROR. -/
structure WellChunked (msgType : UInt8) (tlvs : List (UInt8 × Bytes)) (q : MessageQueue)
    (parts : List (List (UInt8 × Bytes))) : Prop where
  msgs : q.msgs = parts.map (encode msgType)
  whole : parts.flatten = tlvs
  shown : ∀ part ∈ parts, ∃ v', Yields (TlvView.ofMessage (encode msgType part)) part v' ∧
    v'.nextTlv = .ok (false, v')
  filled : ∀ part ∈ parts, part ≠ []
  bounded : ∀ m ∈ q.msgs, m.size ≤ chunkSize
  greedy : parts.IsChain fun part next =>
    ∀ p ∈ next.head?, chunkSize < ((encode msgType part).addTLV p.1 p.2).size
  error : q.verifyError = true ↔ ∃ p ∈ tlvs, p.1 = TlvType.error.toByte

/-- **The messages of a queue respect `CHUNK_SIZE` and are packed greedily.** For every message
type and all `add_TLV` calls on a fresh queue, at least one, with values of at most
`CHUNK_SIZE - 6` bytes. -/
theorem queue_chunked (msgType : UInt8) {tlvs : List (UInt8 × Bytes)} (htlvs : tlvs ≠ [])
    (hvalues : ∀ p ∈ tlvs, p.2.length ≤ chunkSize - 6) :
    ∃ parts, WellChunked msgType tlvs (queueOf msgType tlvs) parts := by
  obtain ⟨-, hmsgs, -, herror⟩ := queueOf_packs msgType tlvs
  -- A value of at most `CHUNK_SIZE - 6` bytes fits behind a type byte and its own header.
  have hroom : ∀ p ∈ tlvs, 1 + tlvSize p ≤ chunkSize := by
    intro p hp
    have hvalue := hvalues p hp
    unfold chunkSize at hvalue ⊢
    unfold tlvSize
    omega
  have hpacked := packed_run htlvs hroom
  refine ⟨_, hmsgs, hpacked.whole, fun part hpart => ?_, hpacked.filled, ?_, ?_, herror⟩
  · refine yields_encode msgType fun p hp => ?_
    have hmem : p ∈ tlvs := by
      rw [← hpacked.whole]
      exact List.mem_flatten_of_mem hpart hp
    have hvalue := hvalues p hmem
    unfold chunkSize at hvalue
    omega
  · rw [hmsgs]
    rintro m hm
    obtain ⟨part, hpart, rfl⟩ := List.mem_map.mp hm
    rw [encode_size]
    exact hpacked.bounded part hpart
  · refine hpacked.greedy.imp fun part next hnext p hp => ?_
    rw [← encode_append, encode_size, load_concat]
    exact hnext p hp

/-- An ITEM that fills a message to its last byte, and the two TLVs behind it. -/
theorem queue_chunked_full :
    ∃ parts, WellChunked MsgType.sync.toByte
      [(TlvType.item.toByte, List.replicate 4090 65), (TlvType.error.toByte, ascii "401"),
        (TlvType.end_.toByte, [])]
      (queueOf MsgType.sync.toByte [(TlvType.item.toByte, List.replicate 4090 65),
        (TlvType.error.toByte, ascii "401"), (TlvType.end_.toByte, [])]) parts :=
  queue_chunked MsgType.sync.toByte (List.cons_ne_nil _ _)
    (List.forall_mem_cons.mpr ⟨Nat.le_of_eq List.length_replicate, by decide⟩)

end RemoteBackup.Proofs
