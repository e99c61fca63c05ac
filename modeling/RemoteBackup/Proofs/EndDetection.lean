import RemoteBackup.Utilities.Tools
import RemoteBackup.Proofs.TlvCodec

/-!
# `RemoteBackup.Proofs.EndDetection`: what `verify_end` sees

`verify_end` looks at the last five bytes of the buffer. In a message that `add_TLV` has built
these are the type byte and the length of the last TLV when its value is empty, and they are
bytes of the value when it has five or more.

* `verifyEnd_eq`: the five bytes that `verify_end` reads.
* `verify_end_exact_iff`: it finds an empty END exactly when there is one, unless the last value
  ends with the bytes of one.
-/

set_option autoImplicit false

namespace RemoteBackup.Proofs

open Lib

/-- The bytes of an END TLV without a value. -/
def endBytes : Bytes := segment (TlvType.end_.toByte, [])

/-- The length zero as four bytes. -/
theorem lengthBytes_zero : Message.lengthBytes 0 = [0, 0, 0, 0] := by decide

/-- The bytes of END. -/
theorem endBytes_eq : endBytes = [3, 0, 0, 0, 0] := rfl

/-- `verify_end` on a buffer of five bytes or more. -/
theorem verifyEnd_eq {v : TlvView} (pre : Bytes) {a b c d e : UInt8}
    (hraw : v.raw = pre ++ [a, b, c, d, e]) :
    v.verifyEnd = .ok (decide ([a, b, c, d, e] = endBytes)) := by
  have hread : ∀ (k : Nat) (x : UInt8), [a, b, c, d, e][k]? = some x →
      readAt v.raw ((pre.length : Int) + k) = .ok x := by
    intro k x hx
    rw [hraw]
    exact readAt_append hx
  have r0 := hread 0 a rfl
  have r1 := hread 1 b rfl
  have r2 := hread 2 c rfl
  have r3 := hread 3 d rfl
  have r4 := hread 4 e rfl
  -- The pointer starts at the last byte and moves to the front.
  have hptr : (v.raw.length : Int) - 1 = (pre.length : Int) + (4 : Nat) := by
    rw [hraw, List.length_append]
    simp only [List.length_cons, List.length_nil]
    omega
  have hstep : ∀ k : Nat, (pre.length : Int) + ((k + 1 : Nat) : Int) - 1 = pre.length + k := by
    intro k
    omega
  unfold TlvView.verifyEnd
  rw [hptr, endBytes_eq]
  simp only [TlvView.verifyEndFrom, bind, Except.bind, pure, Except.pure, r4, hstep, r3, r2, r1, r0]
  by_cases he : e = 0
  · by_cases hd : d = 0
    · by_cases hc : c = 0
      · by_cases hb : b = 0
        · simp [he, hd, hc, hb, TlvType.toByte, beq_eq_decide]
        · simp [he, hd, hc, hb]
      · simp [he, hd, hc]
    · simp [he, hd]
  · simp [he]

/-- The last five bytes of a message whose last value has five bytes or more are bytes of that
value. -/
theorem verifyEnd_of_long {v : TlvView} (pre : Bytes) {value : Bytes} (hraw : v.raw = pre ++ value)
    (hlong : 5 ≤ value.length) : v.verifyEnd = .ok (decide (endBytes <:+ value)) := by
  have hsplit := List.take_append_drop (value.length - 5) value
  have hlen : (value.drop (value.length - 5)).length = 5 := by
    rw [List.length_drop]
    omega
  obtain ⟨a, b, c, d, e, hlast⟩ : ∃ a b c d e, value.drop (value.length - 5) = [a, b, c, d, e] := by
    match value.drop (value.length - 5), hlen with
    | [a, b, c, d, e], _ => exact ⟨a, b, c, d, e, rfl⟩
  rw [hlast] at hsplit
  have hcut : v.raw = (pre ++ value.take (value.length - 5)) ++ [a, b, c, d, e] := by
    rw [hraw, List.append_assoc, hsplit]
  rw [verifyEnd_eq _ hcut, Except.ok.injEq, decide_eq_decide]
  constructor
  · intro heq
    rw [← heq]
    exact ⟨_, hsplit⟩
  · rintro ⟨front, hfront⟩
    rw [← hsplit] at hfront
    exact (List.append_inj_right' hfront rfl).symm

/-- A value of one to four bytes leaves a length byte that is not zero among the last five, so
`verify_end` finds no END. -/
theorem verifyEnd_of_short {v : TlvView} {pre value : Bytes} {t : UInt8}
    (hraw : v.raw = pre ++ segment (t, value)) (hne : value ≠ []) (hshort : value.length < 5) :
    v.verifyEnd = .ok false := by
  match value, hne, hshort with
  | [a], _, _ =>
      rw [verifyEnd_eq (pre ++ [t]) (by rw [hraw]; simp [segment]; rfl)]
      simp [endBytes_eq]
  | [a, b], _, _ =>
      rw [verifyEnd_eq (pre ++ [t, 0]) (by rw [hraw]; simp [segment]; rfl)]
      simp [endBytes_eq]
  | [a, b, c], _, _ =>
      rw [verifyEnd_eq (pre ++ [t, 0, 0]) (by rw [hraw]; simp [segment]; rfl)]
      simp [endBytes_eq]
  | [a, b, c, d], _, _ =>
      rw [verifyEnd_eq (pre ++ [t, 0, 0, 0]) (by rw [hraw]; simp [segment]; rfl)]
      simp [endBytes_eq]

/-- What `verify_end` finds at the end of a message: an empty END, or a value that ends with the
bytes of one. -/
theorem verifyEnd_encode (msgType : UInt8) (tlvs : List (UInt8 × Bytes)) (t : UInt8)
    (value : Bytes) :
    (TlvView.ofMessage (encode msgType (tlvs ++ [(t, value)]))).verifyEnd =
      .ok (decide ((t = TlvType.end_.toByte ∧ value = []) ∨ endBytes <:+ value)) := by
  have hraw : (TlvView.ofMessage (encode msgType (tlvs ++ [(t, value)]))).raw =
      (msgType :: tlvs.flatMap segment) ++ segment (t, value) := by
    show (encode msgType (tlvs ++ [(t, value)])).raw = _
    rw [encode_raw, List.flatMap_append, List.cons_append]
    simp
  by_cases hnil : value = []
  · subst hnil
    have hlast : segment (t, []) = [t, 0, 0, 0, 0] := by simp [segment, lengthBytes_zero]
    rw [hlast] at hraw
    rw [verifyEnd_eq _ hraw]
    simp [endBytes_eq, TlvType.toByte]
  -- The five bytes that are compared all lie in the value, or begin before it.
  by_cases hlong : 5 ≤ value.length
  · have hsplit : (TlvView.ofMessage (encode msgType (tlvs ++ [(t, value)]))).raw =
        (msgType :: tlvs.flatMap segment ++ t :: Message.lengthBytes value.length) ++ value := by
      rw [hraw]
      simp [segment]
    rw [verifyEnd_of_long _ hsplit hlong]
    simp [hnil]
  · rw [verifyEnd_of_short hraw hnil (by omega)]
    have hnot : ¬ endBytes <:+ value := by
      intro h
      have hle := h.length_le
      rw [endBytes_eq] at hle
      simp only [List.length_cons, List.length_nil] at hle
      omega
    simp [hnil, hnot]

/-- `verify_end` is true exactly when the last TLV is an END of length 0. -/
def EndExact (msgType : UInt8) (tlvs : List (UInt8 × Bytes)) (t : UInt8) (value : Bytes) : Prop :=
  (TlvView.ofMessage (encode msgType (tlvs ++ [(t, value)]))).verifyEnd =
    .ok (decide (t = TlvType.end_.toByte ∧ value = []))

/-- The end of a message is detected exactly unless the last value ends with the five bytes of
an empty END. -/
theorem verify_end_exact_iff (msgType : UInt8) (tlvs : List (UInt8 × Bytes)) (t : UInt8)
    (value : Bytes) : EndExact msgType tlvs t value ↔ ¬ endBytes <:+ value := by
  rw [EndExact, verifyEnd_encode, Except.ok.injEq, decide_eq_decide]
  constructor
  · intro h hends
    obtain ⟨-, rfl⟩ := h.mp (Or.inr hends)
    exact absurd hends (by decide)
  · intro h
    exact ⟨fun hor => hor.resolve_right h, Or.inl⟩

/-- A chunk whose content ends like an END. -/
theorem not_verify_end_exact :
    ¬ EndExact MsgType.create.toByte [(TlvType.item.toByte, createSign (ascii "/a") (ascii "00"))]
      TlvType.content.toByte endBytes := by
  rw [EndExact, verifyEnd_encode, Except.ok.injEq, decide_eq_decide]
  exact fun h => absurd (h.mp (Or.inr (List.suffix_refl _))).2 (by decide)

end RemoteBackup.Proofs
