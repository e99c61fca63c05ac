import RemoteBackup.Communication.TlvView
import Mathlib.Tactic.Positivity

/-!
# `RemoteBackup.Proofs.TlvCodec`: building and iterating a message

`encode` builds a message with the constructor and one `add_TLV` per pair. `Yields v tlvs v'`
says that repeated `next_tlv` calls on `v` show the pairs `tlvs` and then return false,
leaving the view `v'`.

* `toInt_length`: the declared length, as a signed offset, is the four bytes read as a
  32-bit two's complement number. For a length below `2 ^ 31` these bytes are the ones
  `add_TLV` wrote (`declaredLength_lengthBytes`, `lengthBytes_declaredLength`).
* `yields_of_segments`, `segments_of_yields`: the two directions, by induction on the list.
  The invariant is the cursor: `data_end_` stands where the next segment starts, and the
  buffer from there on is the segments still to come.
* `tlv_codec_inverse`: encoding and iterating are inverse to each other.
-/

set_option autoImplicit false

namespace RemoteBackup.Proofs

open Lib

/-! ### The declared length -/

/-- A byte is shifted into a 32-bit number with a sign, and then made wider. -/
theorem toInt_shiftIn (b : UInt8) (k : Nat) :
    (shiftIn b k).toInt = Int.bmod (b.toNat * 2 ^ k) (2 ^ 32) := by
  unfold shiftIn
  rw [BitVec.toInt_signExtend_of_le (by omega), BitVec.toInt_shiftLeft]
  simp [Nat.shiftLeft_eq]

/-- The four length bytes read as a 32-bit two's complement number. -/
def declaredLength (b0 b1 b2 b3 : UInt8) : Int :=
  let n : Int := b0.toNat * 2 ^ 24 + b1.toNat * 2 ^ 16 + b2.toNat * 2 ^ 8 + b3.toNat
  if b0.toNat < 2 ^ 7 then n else n - 2 ^ 32

/-- A shift by at most 16 leaves the sign bit clear. -/
theorem toInt_shiftIn_of_le (b : UInt8) {k : Nat} (hk : k ≤ 16) :
    (shiftIn b k).toInt = b.toNat * 2 ^ k := by
  have hb := b.toNat_lt
  have hpow : 2 ^ k ≤ 2 ^ 16 := Nat.pow_le_pow_right (by decide) hk
  have hlt : b.toNat * 2 ^ k < 2 ^ 8 * 2 ^ 16 := Nat.mul_lt_mul_of_lt_of_le hb hpow (by decide)
  rw [toInt_shiftIn]
  exact Int.bmod_eq_of_le_mul_two (by
    have hpos : (0 : Int) ≤ b.toNat * 2 ^ k := by positivity
    omega) (by norm_cast; omega)

/-- The top byte brings the sign. -/
theorem toInt_shiftIn_top (b : UInt8) :
    (shiftIn b 24).toInt = if b.toNat < 2 ^ 7 then (b.toNat * 2 ^ 24 : Int)
      else b.toNat * 2 ^ 24 - 2 ^ 32 := by
  have hb := b.toNat_lt
  rw [toInt_shiftIn, Int.bmod_eq_iff (by decide)]
  split
  · exact ⟨by omega, by omega, 0, by omega⟩
  · exact ⟨by omega, by omega, -1, by omega⟩

/-- Small offsets add without wrapping around. -/
theorem toInt_add_of_small {x y : BitVec 64} (hx : -2 ^ 34 ≤ x.toInt) (hx' : x.toInt < 2 ^ 34)
    (hy : -2 ^ 34 ≤ y.toInt) (hy' : y.toInt < 2 ^ 34) :
    (x + y).toInt = x.toInt + y.toInt := by
  rw [BitVec.toInt_add]
  exact Int.bmod_eq_of_le_mul_two (by omega) (by omega)

/-- The value of `length_` as an iterator offset. -/
theorem toInt_length (b0 b1 b2 b3 : UInt8) :
    (0 + shiftIn b0 24 + shiftIn b1 16 + shiftIn b2 8 + shiftIn b3 0).toInt
      = declaredLength b0 b1 b2 b3 := by
  have h0 := b0.toNat_lt
  have h1 := b1.toNat_lt
  have h2 := b2.toNat_lt
  have h3 := b3.toNat_lt
  have e1 := toInt_shiftIn_of_le b1 (k := 16) (by decide)
  have e2 := toInt_shiftIn_of_le b2 (k := 8) (by decide)
  have e3 := toInt_shiftIn_of_le b3 (k := 0) (by decide)
  have hbounds : -2 ^ 31 ≤ (shiftIn b0 24).toInt ∧ (shiftIn b0 24).toInt < 2 ^ 31 := by
    rw [toInt_shiftIn_top]
    split <;> omega
  have s0 : (0 + shiftIn b0 24).toInt = (shiftIn b0 24).toInt := by simp
  -- No sum leaves the range of an `int`: only the first summand can be negative.
  have s1 := toInt_add_of_small (x := 0 + shiftIn b0 24) (y := shiftIn b1 16)
    (by omega) (by omega) (by omega) (by omega)
  have s2 := toInt_add_of_small (x := 0 + shiftIn b0 24 + shiftIn b1 16) (y := shiftIn b2 8)
    (by omega) (by omega) (by omega) (by omega)
  have s3 := toInt_add_of_small (x := 0 + shiftIn b0 24 + shiftIn b1 16 + shiftIn b2 8)
    (y := shiftIn b3 0) (by omega) (by omega) (by omega) (by omega)
  have ht := toInt_shiftIn_top b0
  unfold declaredLength
  split at ht <;> simp only [*, if_true, if_false] <;> omega

/-- A byte of the length. -/
theorem toNat_lengthByte (n k : Nat) :
    (UInt8.ofNat (n >>> k &&& 0xFF)).toNat = n / 2 ^ k % 256 := by
  have hmask := Nat.and_two_pow_sub_one_eq_mod (n >>> k) 8
  simp only [Nat.reducePow, Nat.reduceSub] at hmask
  rw [hmask, Nat.shiftRight_eq_div_pow]
  simp

/-- The bytes `add_TLV` writes for a length below `2 ^ 31` declare that length. -/
theorem declaredLength_lengthBytes {n : Nat} (hn : n < 2 ^ 31) :
    ∃ b0 b1 b2 b3, Message.lengthBytes n = [b0, b1, b2, b3] ∧ declaredLength b0 b1 b2 b3 = n := by
  refine ⟨_, _, _, _, rfl, ?_⟩
  simp only [declaredLength, toNat_lengthByte]
  split <;> omega

/-- Four bytes that declare a length that is not negative are what `add_TLV` writes for
it. -/
theorem lengthBytes_declaredLength {b0 b1 b2 b3 : UInt8} {n : Nat}
    (h : declaredLength b0 b1 b2 b3 = n) : Message.lengthBytes n = [b0, b1, b2, b3] := by
  have h0 := b0.toNat_lt
  have h1 := b1.toNat_lt
  have h2 := b2.toNat_lt
  have h3 := b3.toNat_lt
  have hn : b0.toNat * 2 ^ 24 + b1.toNat * 2 ^ 16 + b2.toNat * 2 ^ 8 + b3.toNat = n := by
    simp only [declaredLength] at h
    split at h <;> omega
  have hbytes : Message.lengthBytes n =
      [UInt8.ofNat (n >>> 24 &&& 0xFF), UInt8.ofNat (n >>> 16 &&& 0xFF),
        UInt8.ofNat (n >>> 8 &&& 0xFF), UInt8.ofNat (n >>> 0 &&& 0xFF)] := rfl
  rw [hbytes]
  simp only [List.cons.injEq, and_true, ← UInt8.toNat_inj, toNat_lengthByte]
  omega

/-! ### One call of `next_tlv` -/

/-- What is read lies in the buffer. -/
theorem readAt_eq_ok {raw : Bytes} {i : Int} {b : UInt8} (h : readAt raw i = .ok b) :
    ∃ k : Nat, i = k ∧ raw[k]? = some b := by
  unfold readAt at h
  split at h
  · rename_i hi
    split at h
    · rename_i hb
      cases h
      exact ⟨i.toNat, by omega, hb⟩
    · exact absurd h (by simp)
  · exact absurd h (by simp)

/-- A byte of the buffer is read. -/
theorem readAt_natCast {raw : Bytes} {k : Nat} {b : UInt8} (h : raw[k]? = some b) :
    readAt raw k = .ok b := by
  simp [readAt, h]

/-- A byte behind a known front is read. -/
theorem readAt_append {pre bytes : Bytes} {k : Nat} {b : UInt8} (h : bytes[k]? = some b) :
    readAt (pre ++ bytes) ((pre.length : Int) + k) = .ok b := by
  have hget : (pre ++ bytes)[pre.length + k]? = some b := by
    rw [List.getElem?_append_right (by omega), Nat.add_sub_cancel_left, h]
  have hread := readAt_natCast hget
  rwa [Nat.cast_add] at hread

/-- Five bytes of the buffer, one after another. -/
theorem drop_head {raw : Bytes} {k : Nat} {t b0 b1 b2 b3 : UInt8} (ht : raw[k]? = some t)
    (h0 : raw[k + 1]? = some b0) (h1 : raw[k + 2]? = some b1) (h2 : raw[k + 3]? = some b2)
    (h3 : raw[k + 4]? = some b3) :
    raw.drop k = t :: b0 :: b1 :: b2 :: b3 :: raw.drop (k + 5) := by
  rw [List.getElem?_eq_some_iff] at ht h0 h1 h2 h3
  obtain ⟨ht, rfl⟩ := ht
  obtain ⟨h0, rfl⟩ := h0
  obtain ⟨h1, rfl⟩ := h1
  obtain ⟨h2, rfl⟩ := h2
  obtain ⟨h3, rfl⟩ := h3
  rw [List.drop_eq_getElem_cons ht, List.drop_eq_getElem_cons h0, List.drop_eq_getElem_cons h1,
    List.drop_eq_getElem_cons h2, List.drop_eq_getElem_cons h3]

/-- A call that returns true reads a type byte and four length bytes where `data_end_`
stood. -/
theorem nextTlv_true {v v' : TlvView} (h : v.nextTlv = .ok (true, v')) :
    v.finished_ = false ∧ ∃ (k : Nat) (t b0 b1 b2 b3 : UInt8), v.dataEnd_ = k ∧
      v.raw[k]? = some t ∧ v.raw[k + 1]? = some b0 ∧ v.raw[k + 2]? = some b1 ∧
      v.raw[k + 3]? = some b2 ∧ v.raw[k + 4]? = some b3 ∧
      v'.raw = v.raw ∧ v'.finished_ = false ∧ v'.valid_ = true ∧ v'.tlvType_ = t ∧
      v'.length_.toInt = declaredLength b0 b1 b2 b3 ∧ v'.dataBegin_ = k + 5 ∧
      v'.dataEnd_ = k + 5 + declaredLength b0 b1 b2 b3 := by
  unfold TlvView.nextTlv at h
  cases hf : v.finished_ with
  | true => simp [hf] at h
  | false =>
      simp only [hf, Bool.false_eq_true, if_false] at h
      split at h
      · simp at h
      · -- Each read is a bind that succeeded.
        cases ht : readAt v.raw v.dataEnd_ with
        | error e => simp [ht, bind, Except.bind] at h
        | ok t =>
        cases h0 : readAt v.raw (v.dataEnd_ + 1) with
        | error e => simp [ht, h0, bind, Except.bind] at h
        | ok b0 =>
        cases h1 : readAt v.raw (v.dataEnd_ + 2) with
        | error e => simp [ht, h0, h1, bind, Except.bind] at h
        | ok b1 =>
        cases h2 : readAt v.raw (v.dataEnd_ + 3) with
        | error e => simp [ht, h0, h1, h2, bind, Except.bind] at h
        | ok b2 =>
        cases h3 : readAt v.raw (v.dataEnd_ + 4) with
        | error e => simp [ht, h0, h1, h2, h3, bind, Except.bind] at h
        | ok b3 =>
            simp only [ht, h0, h1, h2, h3, bind, Except.bind, Except.ok.injEq, Prod.mk.injEq,
              true_and] at h
            subst h
            obtain ⟨k, hk, hkt⟩ := readAt_eq_ok ht
            rw [hk] at h0 h1 h2 h3
            obtain ⟨k0, hk0, hb0⟩ := readAt_eq_ok h0
            obtain ⟨k1, hk1, hb1⟩ := readAt_eq_ok h1
            obtain ⟨k2, hk2, hb2⟩ := readAt_eq_ok h2
            obtain ⟨k3, hk3, hb3⟩ := readAt_eq_ok h3
            obtain rfl : k0 = k + 1 := by omega
            obtain rfl : k1 = k + 2 := by omega
            obtain rfl : k2 = k + 3 := by omega
            obtain rfl : k3 = k + 4 := by omega
            exact ⟨rfl, k, t, b0, b1, b2, b3, hk, hkt, hb0, hb1, hb2, hb3, rfl, rfl, rfl, rfl,
              toInt_length b0 b1 b2 b3, by simp [hk], by simp only [hk, toInt_length]⟩

/-- A call that returns false leaves a finished view, and the cursor was at the end. -/
theorem nextTlv_false {v v' : TlvView} (h : v.nextTlv = .ok (false, v')) :
    v'.finished_ = true ∧ v'.raw = v.raw ∧
      (v.finished_ = false → v.dataEnd_ = v.raw.length) := by
  unfold TlvView.nextTlv at h
  cases hf : v.finished_ with
  | true =>
      simp only [hf, if_true, Except.ok.injEq, Prod.mk.injEq, true_and] at h
      subst h
      exact ⟨hf, rfl, fun h => absurd h (by simp)⟩
  | false =>
      simp only [hf, Bool.false_eq_true, if_false] at h
      split at h
      · rename_i hend
        simp only [Except.ok.injEq, Prod.mk.injEq, true_and] at h
        subst h
        exact ⟨rfl, rfl, fun _ => hend⟩
      · simp only [bind, Except.bind] at h
        repeat' split at h
        all_goals simp at h

/-- A finished view stays finished: `next_tlv` returns false for ever. -/
theorem nextTlv_finished {v : TlvView} (h : v.finished_ = true) : v.nextTlv = .ok (false, v) := by
  simp [TlvView.nextTlv, h]

/-! ### Whole messages -/

/-- The bytes of one TLV. -/
def segment (p : UInt8 × Bytes) : Bytes := p.1 :: (Message.lengthBytes p.2.length ++ p.2)

/-- The message with the given type and TLVs. -/
def encode (msgType : UInt8) (tlvs : List (UInt8 × Bytes)) : Message :=
  tlvs.foldl (fun m p => m.addTLV p.1 p.2) (Message.ofType msgType)

/-- The bytes of a message are its type and its TLVs one after the other. -/
theorem encode_raw (msgType : UInt8) (tlvs : List (UInt8 × Bytes)) :
    (encode msgType tlvs).raw = msgType :: tlvs.flatMap segment := by
  have hfold : ∀ (tlvs : List (UInt8 × Bytes)) (m : Message),
      (tlvs.foldl (fun m p => m.addTLV p.1 p.2) m).raw = m.raw ++ tlvs.flatMap segment := by
    intro tlvs
    induction tlvs with
    | nil => simp
    | cons p tlvs ih =>
        intro m
        rw [List.foldl_cons, ih, List.flatMap_cons, ← List.append_assoc]
        rfl
  exact hfold tlvs (Message.ofType msgType)

/-- Repeated `next_tlv` calls on `v` show the TLVs, each with its type, its length and its
bytes, and then return false and leave `v'`. -/
inductive Yields : TlvView → List (UInt8 × Bytes) → TlvView → Prop
  | done {v v' : TlvView} (hnext : v.nextTlv = .ok (false, v')) : Yields v [] v'
  | next {v v1 v' : TlvView} {t : UInt8} {length : BitVec 64} {bytes : Bytes}
      {tlvs : List (UInt8 × Bytes)} (hnext : v.nextTlv = .ok (true, v1))
      (htype : v1.tlvType = .ok t) (hlength : v1.length = .ok length)
      (hlen : length.toInt = bytes.length) (hvalue : v1.value = .ok bytes)
      (hrest : Yields v1 tlvs v') : Yields v ((t, bytes) :: tlvs) v'

/-- `next_tlv` in front of a type byte and four length bytes. -/
theorem nextTlv_head {v : TlvView} {pre rest : Bytes} {t b0 b1 b2 b3 : UInt8}
    (hfin : v.finished_ = false) (hraw : v.raw = pre ++ t :: b0 :: b1 :: b2 :: b3 :: rest)
    (hend : v.dataEnd_ = pre.length) :
    v.nextTlv = .ok (true, { v with
      tlvType_ := t
      length_ := 0 + shiftIn b0 24 + shiftIn b1 16 + shiftIn b2 8 + shiftIn b3 0
      dataBegin_ := (pre.length : Int) + 5
      dataEnd_ := (pre.length : Int) + 5 + declaredLength b0 b1 b2 b3
      valid_ := true }) := by
  have hread : ∀ (k : Nat) (b : UInt8), (t :: b0 :: b1 :: b2 :: b3 :: rest)[k]? = some b →
      readAt v.raw ((pre.length : Int) + k) = .ok b := by
    intro k b hb
    rw [hraw]
    exact readAt_append hb
  have hne : (pre.length : Int) ≠ v.raw.length := by
    rw [hraw]
    simp only [List.length_append, List.length_cons]
    omega
  -- The type byte and the four length bytes, at the indices that `next_tlv` reads.
  have r0 := hread 0 t rfl
  have r1 := hread 1 b0 rfl
  have r2 := hread 2 b1 rfl
  have r3 := hread 3 b2 rfl
  have r4 := hread 4 b3 rfl
  simp only [Nat.cast_zero, Int.add_zero, Nat.cast_one, Nat.cast_ofNat] at r0 r1 r2 r3 r4
  rw [← toInt_length]
  unfold TlvView.nextTlv
  simp only [hfin, Bool.false_eq_true, if_false, hend, hne, r0, r1, r2, r3, r4]
  rfl

/-- `next_tlv` in front of a segment shows that segment and moves the cursor behind it. -/
theorem nextTlv_segment {v : TlvView} {pre rest bytes : Bytes} {t : UInt8}
    (hfin : v.finished_ = false) (hraw : v.raw = pre ++ (segment (t, bytes) ++ rest))
    (hend : v.dataEnd_ = pre.length) (hlen : bytes.length < 2 ^ 31) :
    ∃ v1 length, v.nextTlv = .ok (true, v1) ∧ v1.raw = v.raw ∧ v1.finished_ = false ∧
      v1.tlvType = .ok t ∧ v1.length = .ok length ∧ length.toInt = bytes.length ∧
      v1.value = .ok bytes ∧ v1.dataEnd_ = (pre ++ segment (t, bytes)).length := by
  obtain ⟨b0, b1, b2, b3, hbytes, hdecl⟩ := declaredLength_lengthBytes hlen
  have hseg : segment (t, bytes) = t :: b0 :: b1 :: b2 :: b3 :: bytes := by
    simp [segment, hbytes]
  rw [hseg] at hraw ⊢
  have hnext := nextTlv_head hfin hraw hend
  rw [hdecl] at hnext
  refine ⟨_, _, hnext, rfl, hfin, rfl, rfl, ?_, ?_, ?_⟩
  · exact (toInt_length b0 b1 b2 b3).trans hdecl
  · -- The value lies between the cursors, which both stand inside the buffer.
    simp only [TlvView.value, if_true, hraw]
    rw [if_pos (by
      simp only [List.cons_append, List.length_append, List.length_cons]
      omega)]
    have hdrop : ((pre.length : Int) + 5).toNat = pre.length + 5 := by omega
    have htake : ((pre.length : Int) + 5 + bytes.length - (pre.length + 5)).toNat
        = bytes.length := by omega
    rw [hdrop, htake, ← List.drop_drop, List.drop_left]
    simp
  · simp only [List.length_append, List.length_cons]
    omega

/-- From a cursor in front of the segments of a list to the list. Induction on the list. -/
theorem yields_of_segments (tlvs : List (UInt8 × Bytes)) (v : TlvView) (pre : Bytes)
    (hfin : v.finished_ = false) (hraw : v.raw = pre ++ tlvs.flatMap segment)
    (hend : v.dataEnd_ = pre.length) (hlen : ∀ p ∈ tlvs, p.2.length < 2 ^ 31) :
    ∃ v', Yields v tlvs v' ∧ v'.finished_ = true := by
  induction tlvs generalizing v pre with
  | nil =>
      have hnext : v.nextTlv =
          .ok (false, { v with dataBegin_ := v.dataEnd_, finished_ := true, valid_ := false }) := by
        simp [TlvView.nextTlv, hfin, hend, hraw]
      exact ⟨_, .done hnext, rfl⟩
  | cons p tlvs ih =>
      obtain ⟨t, bytes⟩ := p
      rw [List.flatMap_cons] at hraw
      obtain ⟨v1, length, hnext, hraw1, hfin1, htype, hlength, hlen1, hvalue, hend1⟩ :=
        nextTlv_segment hfin hraw hend (hlen (t, bytes) (by simp))
      obtain ⟨v', hyields, hfin'⟩ := ih v1 (pre ++ segment (t, bytes)) hfin1
        (by rw [hraw1, hraw, List.append_assoc]) hend1
        (fun p hp => hlen p (List.mem_cons_of_mem _ hp))
      exact ⟨v', .next hnext htype hlength hlen1 hvalue hyields, hfin'⟩

/-- From an iteration that stays inside the buffer to the segments in it. Induction on the
iteration. -/
theorem segments_of_yields {v v' : TlvView} {tlvs : List (UInt8 × Bytes)}
    (h : Yields v tlvs v') (hfin : v.finished_ = false) (hpos : 0 ≤ v.dataEnd_)
    (hle : v.dataEnd_ ≤ v.raw.length) :
    v.raw.drop v.dataEnd_.toNat = tlvs.flatMap segment := by
  induction h with
  | done hnext =>
      rw [(nextTlv_false hnext).2.2 hfin]
      simp
  | @next v v1 _ t length bytes tlvs hnext htype hlength hlen hvalue _ ih =>
      obtain ⟨-, k, t', b0, b1, b2, b3, hk, hkt, hk0, hk1, hk2, hk3, hraw1, hfin1, hvalid1,
        htype1, hlen1, hbegin1, hend1⟩ := nextTlv_true hnext
      obtain rfl : t' = t := by
        rw [TlvView.tlvType, hvalid1, if_pos rfl, htype1] at htype
        exact Except.ok.inj htype
      unfold TlvView.value at hvalue
      rw [hvalid1, if_pos rfl] at hvalue
      split at hvalue
      · rename_i hrange
        have hbytes := Except.ok.inj hvalue
        -- The declared length is the length of the value.
        have hdecl : declaredLength b0 b1 b2 b3 = bytes.length := by
          rw [← hbytes, List.length_take, List.length_drop]
          omega
        -- The rest of the buffer starts where the value ends.
        have hih := ih hfin1 (by omega) (by rw [hraw1] at hrange ⊢; exact hrange.2.2)
        rw [List.flatMap_cons, ← hih, hraw1, segment, lengthBytes_declaredLength hdecl]
        have hdropk := drop_head hkt hk0 hk1 hk2 hk3
        have hbegin : v1.dataBegin_.toNat = k + 5 := by omega
        have hend : v1.dataEnd_.toNat = k + 5 + bytes.length := by omega
        have hlenb : (v1.dataEnd_ - v1.dataBegin_).toNat = bytes.length := by omega
        rw [hraw1, hbegin, hlenb] at hbytes
        have hsplit : v.raw.drop (k + 5) = bytes ++ v.raw.drop (k + 5 + bytes.length) := by
          have hcut := List.take_append_drop bytes.length (v.raw.drop (k + 5))
          rw [hbytes, List.drop_drop] at hcut
          exact hcut.symm
        rw [hk, Int.toNat_natCast, hdropk, hend, hsplit]
        simp
      · -- A value outside the buffer is not shown.
        exact absurd hvalue (by simp)

/-- The view of an encoded message shows exactly the encoded list and then returns false for
ever. -/
theorem yields_encode (msgType : UInt8) {tlvs : List (UInt8 × Bytes)}
    (hlen : ∀ p ∈ tlvs, p.2.length < 2 ^ 31) :
    ∃ v', Yields (TlvView.ofMessage (encode msgType tlvs)) tlvs v' ∧
      v'.nextTlv = .ok (false, v') := by
  obtain ⟨v', hyields, hfin⟩ := yields_of_segments tlvs
    (TlvView.ofMessage (encode msgType tlvs)) [msgType] rfl
    (by rw [TlvView.ofMessage, encode_raw, List.singleton_append]) rfl hlen
  exact ⟨v', hyields, nextTlv_finished hfin⟩

/-- A message whose iteration stays inside the buffer is an encoding. -/
theorem encode_of_yields {m : Message} {tlvs : List (UInt8 × Bytes)} {v' : TlvView}
    (hyields : Yields (TlvView.ofMessage m) tlvs v') :
    ∃ msgType, m.msgType = some msgType ∧ encode msgType tlvs = m := by
  have hnonempty : m.raw ≠ [] := by
    intro hnil
    -- On an empty buffer the first call reads outside it.
    cases hyields with
    | done hnext =>
        have hend := (nextTlv_false hnext).2.2 rfl
        simp [TlvView.ofMessage, hnil] at hend
    | next hnext =>
        obtain ⟨-, k, t, b0, b1, b2, b3, -, hkt, -⟩ := nextTlv_true hnext
        simp [TlvView.ofMessage, hnil] at hkt
  obtain ⟨raw⟩ := m
  obtain ⟨msgType, body, rfl⟩ := List.exists_cons_of_ne_nil hnonempty
  have hsegs := segments_of_yields hyields rfl (by simp [TlvView.ofMessage])
    (by simp [TlvView.ofMessage])
  refine ⟨msgType, rfl, ?_⟩
  have hraw : (encode msgType tlvs).raw = msgType :: body := by
    rw [encode_raw, ← hsegs]
    rfl
  rw [← hraw]

/-- Encoding and iterating are inverse. The view of an encoded message shows exactly the
encoded list and then returns false for ever. A message whose iteration stays inside the
buffer is the encoding of what the iteration shows, under its first byte. -/
theorem tlv_codec_inverse :
    (∀ (msgType : UInt8) (tlvs : List (UInt8 × Bytes)),
      (∀ p ∈ tlvs, p.2.length < 2 ^ 31) →
      ∃ v', Yields (TlvView.ofMessage (encode msgType tlvs)) tlvs v' ∧
        v'.nextTlv = .ok (false, v')) ∧
    (∀ (m : Message) (tlvs : List (UInt8 × Bytes)) (v' : TlvView),
      Yields (TlvView.ofMessage m) tlvs v' →
      ∃ msgType, m.msgType = some msgType ∧ encode msgType tlvs = m) := by
  constructor
  · exact fun msgType tlvs hlen => yields_encode msgType hlen
  · exact fun m tlvs v' hyields => encode_of_yields hyields

/-- One message with an ITEM and an empty END, both ways. -/
theorem tlv_codec_inverse_create :
    (∃ v', Yields (TlvView.ofMessage (encode 1 [(2, ascii "/a"), (3, [])]))
        [(2, ascii "/a"), (3, [])] v' ∧ v'.nextTlv = .ok (false, v')) ∧
      ∃ msgType, (encode 1 [(2, ascii "/a"), (3, [])]).msgType = some msgType ∧
        encode msgType [(2, ascii "/a"), (3, [])] = encode 1 [(2, ascii "/a"), (3, [])] := by
  obtain ⟨v', hyields, hend⟩ :=
    tlv_codec_inverse.1 1 [(2, ascii "/a"), (3, [])] (by decide)
  exact ⟨⟨v', hyields, hend⟩, tlv_codec_inverse.2 _ _ v' hyields⟩

end RemoteBackup.Proofs
