import RemoteBackup.Proofs.TlvCodec

/-!
# `RemoteBackup.Proofs.Iteration`: how long the iteration of a message goes on

`operator<<` calls `next_tlv` on every request until it returns false. A declared length of
`2 ^ 31` or more is a negative offset, and then the cursor goes back.

* `smallLengths_iff`: every call moves the cursor on exactly when no TLV that is reached
  declares such a length. `smallLengths` finds these TLVs in the bytes alone.
* `stops_of_advances`: a cursor that always moves on stops, because every TLV it passes
  takes five bytes of the buffer.
* `iteration_terminates_iff`: both together.
-/

set_option autoImplicit false

namespace RemoteBackup.Proofs

open Lib

/-- `k` calls of `next_tlv`, one after another, that all return true. -/
inductive Shows : TlvView → Nat → TlvView → Prop
  | none (v : TlvView) : Shows v 0 v
  | more {v v1 v' : TlvView} {k : Nat} (h : Shows v k v1) (hnext : v1.nextTlv = .ok (true, v')) :
      Shows v (k + 1) v'

/-- Every successful call on a fresh view of `m` moves `data_end_` by five or more. -/
def Advances (m : Message) : Prop :=
  ∀ k v v', Shows (TlvView.ofMessage m) k v → v.nextTlv = .ok (true, v') →
    v.dataEnd_ + 5 ≤ v'.dataEnd_

/-- After at most `n` successful calls, `next_tlv` returns false or reads outside the buffer. -/
def StopsWithin (m : Message) (n : Nat) : Prop :=
  ∃ k v, k ≤ n ∧ Shows (TlvView.ofMessage m) k v ∧
    ((∃ v', v.nextTlv = .ok (false, v')) ∨ v.nextTlv = .error .undefinedBehavior)

/-- No TLV that starts in these bytes, or behind the end of an earlier one, declares a length
of `2 ^ 31` or more. -/
def smallLengths : Bytes → Bool
  | _ :: b0 :: b1 :: b2 :: b3 :: rest =>
      decide (b0.toNat < 2 ^ 7) && smallLengths (rest.drop (declaredLength b0 b1 b2 b3).toNat)
  | _ => true
termination_by bytes => bytes.length
decreasing_by
  simp only [List.length_cons, List.length_drop]
  omega

/-- A top byte without the sign bit declares a length that is not negative. -/
theorem declaredLength_nonneg_iff (b0 b1 b2 b3 : UInt8) :
    0 ≤ declaredLength b0 b1 b2 b3 ↔ b0.toNat < 2 ^ 7 := by
  have h0 := b0.toNat_lt
  have h1 := b1.toNat_lt
  have h2 := b2.toNat_lt
  have h3 := b3.toNat_lt
  simp only [declaredLength]
  split <;> omega

/-! ### What a call reads -/

/-- A computation that fails by undefined behavior, if it fails. -/
def OnlyUndefined {α : Type} (x : Except Halt α) : Prop :=
  ∀ e, x = .error e → e = .undefinedBehavior

/-- What succeeds does not fail at all. -/
theorem onlyUndefined_ok {α : Type} (a : α) : OnlyUndefined (.ok a) := by
  intro e h
  cases h

/-- One computation after another. -/
theorem OnlyUndefined.bind {α β : Type} {x : Except Halt α} {f : α → Except Halt β}
    (hx : OnlyUndefined x) (hf : ∀ a, x = .ok a → OnlyUndefined (f a)) :
    OnlyUndefined (x >>= f) := by
  cases x with
  | error e =>
      intro e' h
      cases h
      exact hx e rfl
  | ok a => exact hf a rfl

/-- A read fails in one way only. -/
theorem onlyUndefined_readAt (raw : Bytes) (i : Int) : OnlyUndefined (readAt raw i) := by
  intro e h
  unfold readAt at h
  repeat' split at h
  all_goals simp_all

/-- `next_tlv` makes five reads, and fails when one of them does. -/
theorem onlyUndefined_nextTlv (v : TlvView) : OnlyUndefined v.nextTlv := by
  unfold TlvView.nextTlv
  split
  · exact onlyUndefined_ok _
  split
  · exact onlyUndefined_ok _
  refine (onlyUndefined_readAt _ _).bind fun t _ => ?_
  refine (onlyUndefined_readAt _ _).bind fun b0 _ => ?_
  refine (onlyUndefined_readAt _ _).bind fun b1 _ => ?_
  refine (onlyUndefined_readAt _ _).bind fun b2 _ => ?_
  exact (onlyUndefined_readAt _ _).bind fun b3 _ => onlyUndefined_ok _

/-- A view that has not come to the end of `raw`: its cursor stands at `k`. -/
structure At (raw : Bytes) (k : Nat) (v : TlvView) : Prop where
  raw_eq : v.raw = raw
  unfinished : v.finished_ = false
  cursor : v.dataEnd_ = k

/-- A successful call reads a head of five bytes, and the cursor moves over it and by the
declared length. -/
theorem At.head {raw : Bytes} {k : Nat} {v v' : TlvView} (h : At raw k v)
    (hnext : v.nextTlv = .ok (true, v')) :
    ∃ t b0 b1 b2 b3, raw.drop k = t :: b0 :: b1 :: b2 :: b3 :: raw.drop (k + 5) ∧
      v'.raw = raw ∧ v'.finished_ = false ∧
      v'.dataEnd_ = k + 5 + declaredLength b0 b1 b2 b3 := by
  obtain ⟨-, i, t, b0, b1, b2, b3, hi, ht, h0, h1, h2, h3, hraw, hfin, -, -, -, -, hend⟩ :=
    nextTlv_true hnext
  rw [h.cursor, Nat.cast_inj] at hi
  subst hi
  rw [h.raw_eq] at ht h0 h1 h2 h3 hraw
  exact ⟨t, b0, b1, b2, b3, drop_head ht h0 h1 h2 h3, hraw, hfin, hend⟩

/-! ### The cursor and the bytes -/

/-- In front of a head that declares a length that is not negative, a call moves the cursor
behind the value. -/
theorem At.next {raw rest : Bytes} {k : Nat} {v : TlvView} {t b0 b1 b2 b3 : UInt8}
    (h : At raw k v) (hdrop : raw.drop k = t :: b0 :: b1 :: b2 :: b3 :: rest) :
    ∃ v', v.nextTlv = .ok (true, v') ∧ v'.dataEnd_ = k + 5 + declaredLength b0 b1 b2 b3 ∧
      (0 ≤ declaredLength b0 b1 b2 b3 →
        At raw (k + 5 + (declaredLength b0 b1 b2 b3).toNat) v') := by
  have hk : k ≤ raw.length := by
    have hlen := congrArg List.length hdrop
    simp only [List.length_drop, List.length_cons] at hlen
    omega
  have hsplit : v.raw = raw.take k ++ t :: b0 :: b1 :: b2 :: b3 :: rest := by
    rw [h.raw_eq, ← hdrop, List.take_append_drop]
  have hcursor : v.dataEnd_ = (raw.take k).length := by
    rw [h.cursor, List.length_take_of_le hk]
  have hnext := nextTlv_head h.unfinished hsplit hcursor
  rw [List.length_take_of_le hk] at hnext
  refine ⟨_, hnext, rfl, fun hpos => ⟨h.raw_eq, h.unfinished, ?_⟩⟩
  show (k : Int) + 5 + declaredLength b0 b1 b2 b3 = _
  omega

/-- From a cursor that moves on at every call, no TLV declares a negative length. Induction
along the TLVs. -/
theorem smallLengths_of_advances {m : Message} (h : Advances m) (bytes : Bytes) {k j : Nat}
    {v : TlvView} (hshows : Shows (TlvView.ofMessage m) j v) (hat : At m.raw k v)
    (hbytes : m.raw.drop k = bytes) : smallLengths bytes = true := by
  induction bytes using smallLengths.induct generalizing k j v with
  | case1 t b0 b1 b2 b3 rest ih =>
      obtain ⟨v', hnext, hend, hat'⟩ := hat.next hbytes
      have hpos : 0 ≤ declaredLength b0 b1 b2 b3 := by
        have hmoves := h j v v' hshows hnext
        rw [hend, hat.cursor] at hmoves
        omega
      have hrest : m.raw.drop (k + 5 + (declaredLength b0 b1 b2 b3).toNat) =
          rest.drop (declaredLength b0 b1 b2 b3).toNat := by
        rw [← List.drop_drop, ← List.drop_drop, hbytes]
        rfl
      rw [smallLengths, ih (.more hshows hnext) (hat' hpos) hrest, Bool.and_true,
        decide_eq_true_eq, ← declaredLength_nonneg_iff b0 b1 b2 b3]
      exact hpos
  | case2 bytes hshort =>
      rw [smallLengths]
      exact hshort

/-- Where no TLV declares a negative length, the cursor is always in front of a part of the
buffer that `smallLengths` accepts, or behind its end. -/
theorem at_of_smallLengths {m : Message} (h : smallLengths (m.raw.drop 1) = true) {j : Nat}
    {v : TlvView} (hshows : Shows (TlvView.ofMessage m) j v) :
    ∃ k, At m.raw k v ∧ smallLengths (m.raw.drop k) = true := by
  induction hshows with
  | none => exact ⟨1, ⟨rfl, rfl, rfl⟩, h⟩
  | more hshows hnext ih =>
      obtain ⟨k, hat, hsmall⟩ := ih
      obtain ⟨t, b0, b1, b2, b3, hdrop, hraw, hfin, hend⟩ := hat.head hnext
      rw [hdrop, smallLengths, Bool.and_eq_true, decide_eq_true_eq,
        ← declaredLength_nonneg_iff b0 b1 b2 b3, List.drop_drop] at hsmall
      exact ⟨_, ⟨hraw, hfin, by rw [hend]; omega⟩, hsmall.2⟩

/-- Every call moves the cursor on exactly when no TLV that is reached declares a negative
length. -/
theorem smallLengths_iff (m : Message) : Advances m ↔ smallLengths (m.raw.drop 1) = true := by
  constructor
  · exact fun h => smallLengths_of_advances h _ (.none _) ⟨rfl, rfl, rfl⟩ rfl
  · intro h j v v' hshows hnext
    obtain ⟨k, hat, hsmall⟩ := at_of_smallLengths h hshows
    obtain ⟨t, b0, b1, b2, b3, hdrop, -, -, hend⟩ := hat.head hnext
    rw [hdrop, smallLengths, Bool.and_eq_true, decide_eq_true_eq,
      ← declaredLength_nonneg_iff b0 b1 b2 b3] at hsmall
    rw [hend, hat.cursor]
    have hpos := hsmall.1
    omega

/-- A message that `add_TLV` has built declares no negative length. Induction on its TLVs. -/
theorem smallLengths_encode (msgType : UInt8) {tlvs : List (UInt8 × Bytes)}
    (hlens : ∀ p ∈ tlvs, p.2.length < 2 ^ 31) :
    smallLengths ((encode msgType tlvs).raw.drop 1) = true := by
  rw [encode_raw, List.drop_one, List.tail_cons]
  induction tlvs with
  | nil => simp [smallLengths]
  | cons p tlvs ih =>
      obtain ⟨b0, b1, b2, b3, hbytes, hdecl⟩ := declaredLength_lengthBytes (hlens p (by simp))
      have hpos : 0 ≤ declaredLength b0 b1 b2 b3 := by omega
      rw [List.flatMap_cons, segment, hbytes]
      simp only [List.cons_append, List.nil_append, smallLengths]
      rw [hdecl, Int.toNat_natCast, List.drop_left, ih fun p hp => hlens p (by simp [hp]),
        Bool.and_true, decide_eq_true_eq, ← declaredLength_nonneg_iff b0 b1 b2 b3]
      exact hpos

/-! ### The number of calls -/

/-- An advancing cursor has passed five bytes with every call, and they are bytes of the
message. -/
theorem shows_le {m : Message} (h : Advances m) {k : Nat} {v : TlvView}
    (hshows : Shows (TlvView.ofMessage m) k v) :
    (1 + 5 * k : Int) ≤ v.dataEnd_ ∧ (k = 0 ∨ 5 * k + 1 ≤ m.size) := by
  induction hshows with
  | none => exact ⟨by simp [TlvView.ofMessage], Or.inl rfl⟩
  | @more v1 v' k hshows hnext ih =>
      have hmoves := h k v1 v' hshows hnext
      obtain ⟨i, hat, -⟩ := at_of_smallLengths ((smallLengths_iff m).mp h) hshows
      obtain ⟨t, b0, b1, b2, b3, hdrop, -⟩ := hat.head hnext
      have hlen := congrArg List.length hdrop
      simp only [List.length_drop, List.length_cons] at hlen
      have hcursor := hat.cursor
      have hpassed := ih.1
      refine ⟨by omega, Or.inr ?_⟩
      show 5 * (k + 1) + 1 ≤ m.raw.length
      omega

/-- The iteration stops within `n` calls, or more of them succeed. -/
theorem stopsWithin_or_shows (m : Message) (n : Nat) :
    StopsWithin m n ∨ ∃ v, Shows (TlvView.ofMessage m) (n + 1) v := by
  have hlook : ∀ k v, k ≤ n → Shows (TlvView.ofMessage m) k v →
      StopsWithin m n ∨ ∃ v', Shows (TlvView.ofMessage m) (k + 1) v' := by
    intro k v hk hshows
    cases hnext : v.nextTlv with
    | error e =>
        rw [onlyUndefined_nextTlv v _ hnext] at hnext
        exact Or.inl ⟨k, v, hk, hshows, Or.inr hnext⟩
    | ok r =>
        obtain ⟨more, v'⟩ := r
        cases more with
        | false => exact Or.inl ⟨k, v, hk, hshows, Or.inl ⟨v', hnext⟩⟩
        | true => exact Or.inr ⟨v', .more hshows hnext⟩
  -- So by induction on `k` each call shows a TLV, unless one has stopped.
  have hreach : ∀ k, k ≤ n → StopsWithin m n ∨ ∃ v, Shows (TlvView.ofMessage m) (k + 1) v := by
    intro k
    induction k with
    | zero => exact fun hk => hlook 0 _ hk (.none _)
    | succ k ih =>
        intro hk
        rcases ih (by omega) with hstops | ⟨v, hshows⟩
        · exact Or.inl hstops
        · exact hlook (k + 1) v hk hshows
  exact hreach n (Nat.le_refl n)

/-- There is no room in the message for more calls. -/
theorem stops_of_advances {m : Message} (h : Advances m) : StopsWithin m ((m.size - 1) / 5) := by
  rcases stopsWithin_or_shows m ((m.size - 1) / 5) with hstops | ⟨v, hshows⟩
  · exact hstops
  · have hroom := (shows_le h hshows).2
    omega

/-- The iteration of a message moves on at every call, and stops for lack of room, exactly when
no TLV that it reaches declares a length of `2 ^ 31` or more. -/
theorem iteration_terminates_iff (m : Message) :
    (Advances m ∧ StopsWithin m ((m.size - 1) / 5)) ↔ smallLengths (m.raw.drop 1) = true := by
  rw [← smallLengths_iff]
  exact ⟨fun h => h.1, fun h => ⟨h, stops_of_advances h⟩⟩

/-- A CONTENT whose four length bytes stand for `-5`. -/
def loopMessage : Message := ⟨[1, 6, 255, 255, 255, 251]⟩

/-- The cursor goes back to where it was, and the iteration never stops. -/
theorem not_iteration_terminates :
    ¬ Advances loopMessage ∧ ∀ n, ¬ StopsWithin loopMessage n := by
  have hloop : ∀ k v, Shows (TlvView.ofMessage loopMessage) k v → At loopMessage.raw 1 v := by
    intro k v hshows
    induction hshows with
    | none => exact ⟨rfl, rfl, rfl⟩
    | more hshows hnext ih =>
        obtain ⟨t, b0, b1, b2, b3, hdrop, hraw, hfin, hend⟩ := ih.head hnext
        refine ⟨hraw, hfin, ?_⟩
        have hbytes : t = 6 ∧ b0 = 255 ∧ b1 = 255 ∧ b2 = 255 ∧ b3 = 251 := by
          simpa [loopMessage, eq_comm] using hdrop
        obtain ⟨-, rfl, rfl, rfl, rfl⟩ := hbytes
        rw [hend]
        decide
  refine ⟨fun h => ?_, ?_⟩
  · exact absurd ((smallLengths_iff _).mp h) (by simp [loopMessage, smallLengths])
  · rintro n ⟨k, v, -, hshows, hstops⟩
    obtain ⟨v', hnext, -⟩ := (hloop k v hshows).next rfl
    rcases hstops with ⟨v'', hfalse⟩ | herror
    · exact absurd (hnext.symm.trans hfalse) (by simp)
    · exact absurd (hnext.symm.trans herror) (by simp)

end RemoteBackup.Proofs
