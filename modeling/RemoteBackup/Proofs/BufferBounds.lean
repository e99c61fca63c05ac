import RemoteBackup.Proofs.Iteration
import Mathlib.Logic.Relation

/-!
# `RemoteBackup.Proofs.BufferBounds`: what the decoder reads and shows

`next_tlv` compares its cursor with the end of the buffer for equality only. A cursor that a
declared length has moved behind the end, or back, passes this test.

* `yields_of_inBuffer`: while the decoder stays inside the buffer, its calls show a list of
  TLVs. Induction on the bytes behind the cursor.
* `Yields.calls`: where the calls show a list of TLVs, every view on the way has its value
  inside the buffer, and so has every view after the last TLV.
* `decoder_in_buffer_iff`: the decoder stays inside the buffer exactly on the messages that
  `add_TLV` can build.
-/

set_option autoImplicit false

namespace RemoteBackup.Proofs

open Lib Relation

/-- One call of `next_tlv` that returns, with either result. -/
def Calls (v v' : TlvView) : Prop := ∃ more, v.nextTlv = .ok (more, v')

/-- The range `[cbegin(), cend())` lies inside the buffer. -/
structure InRange (v : TlvView) : Prop where
  begin_nonneg : 0 ≤ v.dataBegin_
  begin_le_end : v.dataBegin_ ≤ v.dataEnd_
  end_le : v.dataEnd_ ≤ v.raw.length

/-- After any number of calls on a fresh view of `m`, the next call reads inside the buffer
(`onlyUndefined_nextTlv`: a read outside it is the only way a call does not return). When it
returns true, its value lies inside the buffer. -/
structure InBuffer (m : Message) : Prop where
  reads : ∀ v, ReflTransGen Calls (TlvView.ofMessage m) v → ∃ r, v.nextTlv = .ok r
  range : ∀ v v', ReflTransGen Calls (TlvView.ofMessage m) v → v.nextTlv = .ok (true, v') →
    v'.raw = m.raw ∧ InRange v'

/-- A message that the constructor and `add_TLV` build from values shorter than `2 ^ 31`. -/
def WellFormed (m : Message) : Prop :=
  ∃ msgType tlvs, (∀ p ∈ tlvs, p.2.length < 2 ^ 31) ∧ m = encode msgType tlvs

/-- Inside the buffer the value is the bytes between the two ends. -/
theorem value_of_inRange {v : TlvView} (hvalid : v.valid_ = true) (h : InRange v) :
    v.value = .ok ((v.raw.drop v.dataBegin_.toNat).take (v.dataEnd_ - v.dataBegin_).toNat) := by
  rw [TlvView.value, if_pos hvalid, if_pos ⟨h.begin_nonneg, h.begin_le_end, h.end_le⟩]

/-- A value that was read lies inside the buffer. -/
theorem inRange_of_value {v : TlvView} {bytes : Bytes} (h : v.value = .ok bytes) : InRange v := by
  unfold TlvView.value at h
  split at h
  · split at h
    · rename_i hrange
      exact ⟨hrange.1, hrange.2.1, hrange.2.2⟩
    · exact absurd h (by simp)
  · exact absurd h (by simp)

/-- Four length bytes declare less than `2 ^ 31`. -/
theorem declaredLength_lt (b0 b1 b2 b3 : UInt8) : declaredLength b0 b1 b2 b3 < 2 ^ 31 := by
  have h0 := b0.toNat_lt
  have h1 := b1.toNat_lt
  have h2 := b2.toNat_lt
  have h3 := b3.toNat_lt
  simp only [declaredLength]
  split <;> omega

/-- A decoder that stays inside the buffer shows a list of TLVs. Every TLV takes five bytes of
what is behind the cursor, so the calls come to an end. -/
theorem yields_of_inBuffer {m : Message} (h : InBuffer m) (room : Nat) {v : TlvView}
    (hcalls : ReflTransGen Calls (TlvView.ofMessage m) v) (hraw : v.raw = m.raw)
    (hroom : (v.raw.length : Int) - v.dataEnd_ ≤ room) :
    ∃ tlvs v', Yields v tlvs v' ∧ ∀ p ∈ tlvs, p.2.length < 2 ^ 31 := by
  induction room generalizing v with
  | zero =>
      obtain ⟨⟨more, v'⟩, hnext⟩ := h.reads v hcalls
      cases more with
      | false => exact ⟨[], v', .done hnext, by simp⟩
      | true =>
          -- There is no room for the five bytes that were read.
          obtain ⟨-, k, t, b0, b1, b2, b3, hk, hkt, -⟩ := nextTlv_true hnext
          obtain ⟨hlt, -⟩ := List.getElem?_eq_some_iff.mp hkt
          omega
  | succ room ih =>
      obtain ⟨⟨more, v'⟩, hnext⟩ := h.reads v hcalls
      cases more with
      | false => exact ⟨[], v', .done hnext, by simp⟩
      | true =>
          obtain ⟨hraw', hrange⟩ := h.range v v' hcalls hnext
          obtain ⟨-, k, t, b0, b1, b2, b3, hk, -, -, -, -, -, -, -, hvalid, -, hlength, hbegin,
            hend⟩ := nextTlv_true hnext
          have hbounds := hrange.begin_le_end
          have hle := hrange.end_le
          have hsmall := declaredLength_lt b0 b1 b2 b3
          have hvalue := value_of_inRange hvalid hrange
          have hlen : ((v'.raw.drop v'.dataBegin_.toNat).take
              (v'.dataEnd_ - v'.dataBegin_).toNat).length = declaredLength b0 b1 b2 b3 := by
            rw [List.length_take, List.length_drop]
            omega
          obtain ⟨tlvs, v'', hyields, hlens⟩ :=
            ih (hcalls.tail ⟨true, hnext⟩) hraw' (by rw [hraw', ← hraw]; omega)
          refine ⟨_, v'', .next hnext (by rw [TlvView.tlvType, if_pos hvalid])
            (by rw [TlvView.length, if_pos hvalid]) (by rw [hlength, hlen]) hvalue hyields, ?_⟩
          intro p hp
          rcases List.mem_cons.mp hp with rfl | hp
          · dsimp only
            omega
          · exact hlens p hp

/-- Along the calls that show a list of TLVs, and after them, a call returns, and what it shows
lies inside the buffer. Induction on the list. -/
theorem Yields.calls {v v' x : TlvView} {tlvs : List (UInt8 × Bytes)} (h : Yields v tlvs v')
    (hcalls : ReflTransGen Calls v x) :
    (∃ r, x.nextTlv = .ok r) ∧
      ∀ y, x.nextTlv = .ok (true, y) → y.raw = v.raw ∧ InRange y := by
  induction h generalizing x with
  | @done v v' hnext =>
      have hfinished := nextTlv_finished (nextTlv_false hnext).1
      -- The first call ends the iteration, and every later one returns false.
      have hends : x.nextTlv = .ok (false, v') := by
        induction hcalls with
        | refl => exact hnext
        | tail _ hcall ih =>
            obtain ⟨more, hmore⟩ := hcall
            obtain ⟨-, rfl⟩ := Prod.mk.inj (Except.ok.inj (ih.symm.trans hmore))
            exact hfinished
      rw [hends]
      exact ⟨⟨_, rfl⟩, fun y hy => absurd hy (by simp)⟩
  | @next v v1 v' t length bytes tlvs hnext htype hlength hlen hvalue hrest ih =>
      obtain ⟨-, -, -, -, -, -, -, -, -, -, -, -, -, hraw, -⟩ := nextTlv_true hnext
      rcases hcalls.cases_head with rfl | ⟨v2, ⟨more, hcall⟩, hcalls⟩
      · rw [hnext]
        refine ⟨⟨_, rfl⟩, fun y hy => ?_⟩
        obtain ⟨-, rfl⟩ := Prod.mk.inj (Except.ok.inj hy)
        exact ⟨hraw, inRange_of_value hvalue⟩
      · obtain ⟨-, rfl⟩ := Prod.mk.inj (Except.ok.inj (hnext.symm.trans hcall))
        rw [← hraw]
        exact ih hcalls

/-- The decoder stays inside the buffer exactly when the message is a type byte and complete
TLVs. -/
theorem decoder_in_buffer_iff (m : Message) : InBuffer m ↔ WellFormed m := by
  constructor
  · intro h
    obtain ⟨tlvs, v', hyields, hlens⟩ :=
      yields_of_inBuffer h m.raw.length .refl rfl (by simp [TlvView.ofMessage])
    obtain ⟨msgType, -, hm⟩ := encode_of_yields hyields
    exact ⟨msgType, tlvs, hlens, hm.symm⟩
  · rintro ⟨msgType, tlvs, hlens, rfl⟩
    obtain ⟨v', hyields, -⟩ := yields_encode msgType hlens
    exact ⟨fun v hcalls => (hyields.calls hcalls).1,
      fun v x hcalls hnext => (hyields.calls hcalls).2 x hnext⟩

/-- A TLV header of one byte. -/
def truncatedMessage : Message := ⟨[1, 6]⟩

/-- A CONTENT that declares one byte and has none. -/
def overlongMessage : Message := ⟨[1, 6, 0, 0, 0, 1]⟩

/-- In the first message a call reads behind the end, in the second its value ends there. -/
theorem not_decoder_in_buffer : ¬ InBuffer truncatedMessage ∧ ¬ InBuffer overlongMessage := by
  constructor
  · intro h
    obtain ⟨r, hr⟩ := h.reads _ .refl
    have herror : (TlvView.ofMessage truncatedMessage).nextTlv = .error .undefinedBehavior := by
      decide
    exact absurd (herror.symm.trans hr) (by simp)
  · intro h
    have hnext : (TlvView.ofMessage overlongMessage).nextTlv =
        .ok (true, ⟨[1, 6, 0, 0, 0, 1], 6, 1, 6, 7, true, false⟩) := by decide
    exact absurd (h.range _ _ .refl hnext).2.end_le (by decide)

end RemoteBackup.Proofs
