import RemoteBackup.Communication.Print
import RemoteBackup.Lib.Lasso
import RemoteBackup.Proofs.BufferBounds
import RemoteBackup.Proofs.Halts
import RemoteBackup.Proofs.Replies
import RemoteBackup.Proofs.StoredUpload

/-!
# `RemoteBackup.Proofs.Printing`: what is printed of a message

`connection` prints a request before the request handler sees it. So what the print does with a
message that is not well formed comes first.

* `print_endless`: a print that is not over after one round more than the message has bytes is
  never over, because its cursor is then in a loop (`Lib.Lasso.endless`).
* `print_of_yields`, `yields_of_print`: where no TLV declares a negative length, a print is over
  exactly when the message is a type byte and complete TLVs.
* `print_shows_message`: what is printed, and that it stops the process on any other message.
-/

set_option autoImplicit false

namespace RemoteBackup.Proofs

open Lib Lasso

/-! ### One round -/

/-- One round of the loop: there is a next TLV, and it can be printed. -/
def Round (v v' : TlvView) : Prop := v.nextTlv = .ok (true, v') ∧ ∃ lines, v'.print = .ok lines

/-- The lines of one TLV. -/
def tlvLines (p : UInt8 × Bytes) : Bytes :=
  printLine "\tT: " (decimal p.1.toNat) ++ printLine "\tL: " (decimal p.2.length) ++
    if p.1 ≠ TlvType.content.toByte then printLine "\tV: " p.2 else []

/-- The lines of a message. -/
def listing (msgType : UInt8) (tlvs : List (UInt8 × Bytes)) : Bytes :=
  printLine "Type: " (decimal msgType.toNat) ++ tlvs.flatMap tlvLines

/-- A TLV that can be read is printed by its lines. -/
theorem print_of_shown {v : TlvView} {t : UInt8} {length : BitVec 64} {bytes : Bytes}
    (htype : v.tlvType = .ok t) (hlength : v.length = .ok length)
    (hlen : length.toInt = bytes.length) (hvalue : v.value = .ok bytes) :
    v.print = .ok (tlvLines (t, bytes)) := by
  have hnat : length.toNat = bytes.length := by
    have hlt := length.isLt
    rw [BitVec.toInt_eq_toNat_cond] at hlen
    split at hlen <;> omega
  unfold TlvView.print tlvLines
  simp only [htype, hlength, hvalue, hnat, bind, Except.bind, pure, Except.pure]
  split
  · rfl
  · rw [List.append_nil]

/-- A TLV that is shown can be printed, unless its value lies outside the buffer. -/
theorem onlyUndefined_print {v : TlvView} (h : v.valid_ = true) : OnlyUndefined v.print := by
  have htype : OnlyUndefined v.tlvType := by
    rw [tlvType_of_valid h]
    exact onlyUndefined_ok _
  have hlength : OnlyUndefined v.length := by
    rw [TlvView.length, if_pos h]
    exact onlyUndefined_ok _
  refine htype.bind fun t _ => hlength.bind fun length _ => ?_
  split
  · exact (onlyUndefined_value h).bind fun _ _ => onlyUndefined_ok _
  · exact onlyUndefined_ok _

/-- What a call shows depends on the bytes and the cursor alone. -/
theorem nextTlv_unique {v v' w w' : TlvView} (hraw : v.raw = w.raw)
    (hcursor : v.dataEnd_ = w.dataEnd_) (hv : v.nextTlv = .ok (true, v'))
    (hw : w.nextTlv = .ok (true, w')) : v' = w' := by
  obtain ⟨-, i, t, b0, b1, b2, b3, hi, ht, h0, h1, h2, h3, hvraw, hvfin, hvvalid, hvtype, hvlen,
    hvbegin, hvend⟩ := nextTlv_true hv
  obtain ⟨-, j, t', c0, c1, c2, c3, hj, ht', h0', h1', h2', h3', hwraw, hwfin, hwvalid, hwtype,
    hwlen, hwbegin, hwend⟩ := nextTlv_true hw
  obtain rfl : i = j := by omega
  rw [hraw] at ht h0 h1 h2 h3
  obtain rfl := Option.some.inj (ht.symm.trans ht')
  obtain rfl := Option.some.inj (h0.symm.trans h0')
  obtain rfl := Option.some.inj (h1.symm.trans h1')
  obtain rfl := Option.some.inj (h2.symm.trans h2')
  obtain rfl := Option.some.inj (h3.symm.trans h3')
  cases v' with
  | mk raw tlvType length dataBegin dataEnd valid finished =>
      cases w' with
      | mk raw' tlvType' length' dataBegin' dataEnd' valid' finished' =>
          simp only [TlvView.mk.injEq]
          exact ⟨hvraw.trans (hraw.trans hwraw.symm), hvtype.trans hwtype.symm,
            BitVec.eq_of_toInt_eq (hvlen.trans hwlen.symm), hvbegin.trans hwbegin.symm,
            hvend.trans hwend.symm, hvvalid.trans hwvalid.symm, hvfin.trans hwfin.symm⟩

/-! ### The loop -/

/-- The loop fails only by a read outside of the buffer. -/
theorem onlyUndefined_printLoop (n : Nat) (v : TlvView) : OnlyUndefined (v.printLoop n) := by
  induction n generalizing v with
  | zero => exact onlyUndefined_ok _
  | succ n ih =>
      rw [TlvView.printLoop]
      refine (onlyUndefined_nextTlv v).bind fun (more, v') hnext => ?_
      cases more with
      | false => exact onlyUndefined_ok _
      | true =>
          refine (onlyUndefined_print (nextTlv_valid hnext)).bind fun lines _ => ?_
          exact (ih v').bind fun rest _ => onlyUndefined_ok _

/-- The loop in front of a TLV that it prints. -/
theorem printLoop_round {n : Nat} {v v' : TlvView} {lines : Bytes}
    (hnext : v.nextTlv = .ok (true, v')) (hlines : v'.print = .ok lines) :
    v.printLoop (n + 1) = (v'.printLoop n).map (Option.map (lines ++ ·)) := by
  rw [TlvView.printLoop]
  simp only [hnext, hlines, bind, Except.bind, if_true]
  cases v'.printLoop n <;> rfl

/-- The loop at the end of the message. -/
theorem printLoop_done {n : Nat} {v v' : TlvView} (hnext : v.nextTlv = .ok (false, v')) :
    v.printLoop (n + 1) = .ok (some []) := by
  rw [TlvView.printLoop]
  simp [hnext, bind, Except.bind, pure, Except.pure]

/-- What a loop that returns has done: it was at the end, or it has printed a TLV and gone on. -/
theorem printLoop_ok {n : Nat} {v : TlvView} {r : Option Bytes}
    (h : v.printLoop (n + 1) = .ok r) :
    (∃ v', v.nextTlv = .ok (false, v') ∧ r = some []) ∨
      ∃ v' lines rest, v.nextTlv = .ok (true, v') ∧ v'.print = .ok lines ∧
        v'.printLoop n = .ok rest ∧ r = rest.map (lines ++ ·) := by
  cases hnext : v.nextTlv with
  | error e =>
      rw [TlvView.printLoop] at h
      simp [hnext, bind, Except.bind] at h
  | ok next =>
      obtain ⟨more, v'⟩ := next
      cases more with
      | false =>
          rw [printLoop_done hnext] at h
          exact Or.inl ⟨v', rfl, (Except.ok.inj h).symm⟩
      | true =>
          cases hlines : v'.print with
          | error e =>
              rw [TlvView.printLoop] at h
              simp [hnext, hlines, bind, Except.bind] at h
          | ok lines =>
              rw [printLoop_round hnext hlines] at h
              cases hrest : v'.printLoop n with
              | error e => simp [hrest, Except.map] at h
              | ok rest =>
                  rw [hrest] at h
                  exact Or.inr ⟨v', lines, rest, rfl, hlines, hrest, (Except.ok.inj h).symm⟩

/-- The loop is not over after `n` rounds when it can go `n` rounds. -/
theorem printLoop_none_iff {n : Nat} {v : TlvView} :
    v.printLoop n = .ok none ↔ ∃ p, Walk Round v n p := by
  induction n generalizing v with
  | zero => exact iff_of_true rfl ⟨fun _ => v, rfl, fun i hi => absurd hi (by omega)⟩
  | succ n ih =>
      constructor
      · intro h
        rcases printLoop_ok h with ⟨v', -, hr⟩ | ⟨v', lines, rest, hnext, hlines, hrest, hr⟩
        · cases hr
        · obtain rfl : rest = none := Option.map_eq_none_iff.mp hr.symm
          obtain ⟨p, hp⟩ := ih.mp hrest
          exact ⟨_, hp.cons ⟨hnext, lines, hlines⟩⟩
      · rintro ⟨p, hp⟩
        obtain ⟨⟨hnext, lines, hlines⟩, htail⟩ := hp.tail
        rw [printLoop_round hnext hlines, ih.mpr ⟨_, htail⟩]
        rfl

/-- More rounds make no difference to a loop that is over. -/
theorem printLoop_add {n : Nat} {v : TlvView} (h : v.printLoop n ≠ .ok none) (k : Nat) :
    v.printLoop (n + k) = v.printLoop n := by
  induction n generalizing v with
  | zero => exact absurd rfl h
  | succ n ih =>
      rw [Nat.add_right_comm]
      cases hnext : v.nextTlv with
      | error e => simp [TlvView.printLoop, hnext, bind, Except.bind]
      | ok next =>
          obtain ⟨more, v'⟩ := next
          cases more with
          | false => rw [printLoop_done hnext, printLoop_done hnext]
          | true =>
              cases hlines : v'.print with
              | error e => simp [TlvView.printLoop, hnext, hlines, bind, Except.bind]
              | ok lines =>
                  rw [printLoop_round hnext hlines] at h ⊢
                  rw [printLoop_round hnext hlines, ih fun hnone => h (by rw [hnone]; rfl)]

/-- A loop that can go one round more than the message has bytes never ends. -/
theorem printLoop_endless {v : TlvView} (hfin : v.finished_ = false)
    (h : v.printLoop (v.raw.length + 1) = .ok none) (k : Nat) : v.printLoop k = .ok none := by
  obtain ⟨p, hp⟩ := printLoop_none_iff.mp h
  have hkeeps : ∀ x y : TlvView, x.raw = v.raw ∧ x.finished_ = false → Round x y →
      y.raw = v.raw ∧ y.finished_ = false := by
    rintro x y ⟨hraw, -⟩ ⟨hnext, -⟩
    obtain ⟨-, i, t, b0, b1, b2, b3, -, -, -, -, -, -, hyraw, hyfin, -⟩ := nextTlv_true hnext
    exact ⟨hyraw.trans hraw, hyfin⟩
  -- A call that shows a TLV reads the byte at the cursor.
  have hplace : ∀ x y : TlvView, x.raw = v.raw ∧ x.finished_ = false → Round x y →
      x.dataEnd_.toNat < v.raw.length := by
    rintro x y ⟨hraw, -⟩ ⟨hnext, -⟩
    obtain ⟨-, i, t, b0, b1, b2, b3, hi, hread, -⟩ := nextTlv_true hnext
    obtain ⟨hlt, -⟩ := List.getElem?_eq_some_iff.mp hread
    rw [hraw] at hlt
    omega
  obtain ⟨q, hq⟩ := endless hkeeps (fun x => x.dataEnd_.toNat) hplace (by
    rintro x x' y y' ⟨hraw, -⟩ ⟨hraw', -⟩ hsame ⟨hnext, -⟩ ⟨hnext', -⟩
    obtain ⟨-, i, -, -, -, -, -, hi, -⟩ := nextTlv_true hnext
    obtain ⟨-, j, -, -, -, -, -, hj, -⟩ := nextTlv_true hnext'
    have hcursor : x.dataEnd_ = x'.dataEnd_ := by omega
    exact nextTlv_unique (hraw.trans hraw'.symm) hcursor hnext hnext') ⟨rfl, hfin⟩ hp
  exact printLoop_none_iff.mpr ⟨q, hq k⟩

/-! ### Whole messages -/

/-- A message is printed by its type and then by the loop over its TLVs. -/
theorem print_eq {m : Message} {msgType : UInt8} (h : m.msgType = some msgType) (n : Nat) :
    m.print n = ((TlvView.ofMessage m).printLoop n).map
      (Option.map (printLine "Type: " (decimal msgType.toNat) ++ ·)) := by
  rw [Message.print, h]
  show Except.bind _ _ = _
  cases (TlvView.ofMessage m).printLoop n <;> rfl

/-- The print of a message fails only by a read outside of the buffer. -/
theorem print_error {m : Message} {n : Nat} {e : Halt} (h : m.print n = .error e) :
    e = .undefinedBehavior := by
  cases htype : m.msgType with
  | none =>
      rw [Message.print, htype] at h
      exact (Except.error.inj h).symm
  | some msgType =>
      rw [print_eq htype] at h
      cases hloop : (TlvView.ofMessage m).printLoop n with
      | error e' =>
          rw [hloop] at h
          obtain rfl := Except.error.inj h
          exact onlyUndefined_printLoop _ _ _ hloop
      | ok rest => simp [hloop, Except.map] at h

/-- The print goes on for ever. -/
def Endless (m : Message) : Prop := ∀ n, m.print n = .ok none

/-- A print that is not over after one round more than the message has bytes goes on for ever, and
any other has ended by then. -/
theorem print_endless (m : Message) :
    (m.printed = .ok none ↔ Endless m) ∧
      (m.printed ≠ .ok none → ∀ n, m.size < n → m.print n = m.printed) := by
  cases htype : m.msgType with
  | none =>
      have herror : ∀ n, m.print n = .error .undefinedBehavior := by
        intro n
        rw [Message.print, htype]
      refine ⟨iff_of_false ?_ fun h => ?_, fun _ n _ => by rw [herror, Message.printed, herror]⟩
      · rw [Message.printed, herror]
        simp
      · exact absurd ((herror 0).symm.trans (h 0)) (by simp)
  | some msgType =>
      have hnone : ∀ n, m.print n = .ok none ↔ (TlvView.ofMessage m).printLoop n = .ok none := by
        intro n
        rw [print_eq htype]
        rcases (TlvView.ofMessage m).printLoop n with _ | _ | _ <;> simp [Except.map]
      refine ⟨⟨fun h n => ?_, fun h => h _⟩, fun h n hn => ?_⟩
      · exact (hnone n).mpr (printLoop_endless rfl ((hnone _).mp h) n)
      · obtain ⟨k, rfl⟩ := Nat.exists_eq_add_of_lt hn
        rw [Message.printed] at h
        have hadd := printLoop_add (fun hloop => h ((hnone _).mpr hloop)) k
        rw [Message.printed, print_eq htype, print_eq htype, ← hadd]
        congr 2
        omega

/-! ### Well-formed messages -/

/-- A loop prints the TLVs that the calls show. -/
theorem print_of_yields {v v' : TlvView} {tlvs : List (UInt8 × Bytes)} (h : Yields v tlvs v')
    {n : Nat} (hn : tlvs.length < n) : v.printLoop n = .ok (some (tlvs.flatMap tlvLines)) := by
  obtain ⟨n, rfl⟩ := Nat.exists_eq_add_of_lt hn
  induction h with
  | done hnext => exact printLoop_done hnext
  | next hnext htype hlength hlen hvalue _ ih =>
      have hrest := ih (by omega)
      rw [List.length_cons, Nat.add_right_comm _ 1 n,
        printLoop_round hnext (print_of_shown htype hlength hlen hvalue), hrest]
      rfl

/-- A loop that is over has passed complete TLVs, where none of them declares a negative length.
Induction on the rounds. The cursor moves on and stops at the end of the buffer, so no value of a
CONTENT, which is not printed, is outside it either. -/
theorem yields_of_print {raw text : Bytes} {n k : Nat} {v : TlvView} (hat : At raw k v)
    (hsmall : smallLengths (raw.drop k) = true) (h : v.printLoop n = .ok (some text)) :
    k ≤ raw.length ∧ ∃ tlvs v', Yields v tlvs v' ∧ ∀ p ∈ tlvs, p.2.length < 2 ^ 31 := by
  induction n generalizing k v text with
  | zero => cases h
  | succ n ih =>
      rcases printLoop_ok h with ⟨v', hnext, -⟩ | ⟨v', lines, rest, hnext, -, hrest, hr⟩
      · have hend := (nextTlv_false hnext).2.2 hat.unfinished
        rw [hat.cursor, hat.raw_eq, Nat.cast_inj] at hend
        exact ⟨hend.le, [], v', .done hnext, by simp⟩
      · obtain ⟨rest, rfl, -⟩ := Option.map_eq_some_iff.mp hr.symm
        obtain ⟨t, b0, b1, b2, b3, hdrop, hraw, hfin, hend⟩ := hat.head hnext
        rw [hdrop, smallLengths, Bool.and_eq_true, decide_eq_true_eq,
          ← declaredLength_nonneg_iff b0 b1 b2 b3, List.drop_drop] at hsmall
        have hpos := hsmall.1
        obtain ⟨hle, tlvs, v'', hyields, hlens⟩ := ih ⟨hraw, hfin, by omega⟩ hsmall.2 hrest
        -- So the value ends inside the buffer.
        obtain ⟨-, i, t', c0, c1, c2, c3, hi, -, -, -, -, -, -, -, hvalid, -, hlength, hbegin,
          hend'⟩ := nextTlv_true hnext
        have hcursor := hat.cursor
        have hrange : InRange v' := ⟨by omega, by omega, by rw [hraw, hend]; omega⟩
        have hsmall' := declaredLength_lt b0 b1 b2 b3
        have hlen : ((v'.raw.drop v'.dataBegin_.toNat).take
            (v'.dataEnd_ - v'.dataBegin_).toNat).length = declaredLength b0 b1 b2 b3 := by
          rw [List.length_take, List.length_drop, hraw]
          omega
        refine ⟨by omega, _, v'', .next hnext (tlvType_of_valid hvalid)
          (by rw [TlvView.length, if_pos hvalid]) (by omega)
          (value_of_inRange hvalid hrange) hyields, ?_⟩
        intro p hp
        rcases List.mem_cons.mp hp with rfl | hp
        · dsimp only
          omega
        · exact hlens p hp

/-- Every TLV takes a byte at least. -/
theorem length_flatMap_segment (tlvs : List (UInt8 × Bytes)) :
    tlvs.length ≤ (tlvs.flatMap segment).length := by
  induction tlvs with
  | nil => exact Nat.le_refl 0
  | cons p tlvs ih =>
      rw [List.flatMap_cons, List.length_append, List.length_cons, segment, List.length_cons]
      omega

/-- A message that `add_TLV` has built is printed in full. -/
theorem printed_encode (msgType : UInt8) {tlvs : List (UInt8 × Bytes)}
    (hlens : ∀ p ∈ tlvs, p.2.length < 2 ^ 31) :
    (encode msgType tlvs).printed = .ok (some (listing msgType tlvs)) := by
  obtain ⟨v', hyields, -⟩ := yields_encode msgType hlens
  have htype : (encode msgType tlvs).msgType = some msgType := by
    rw [Message.msgType, encode_raw]
    rfl
  have hroom : tlvs.length < (encode msgType tlvs).size + 1 := by
    have hle := length_flatMap_segment tlvs
    rw [Message.size, encode_raw, List.length_cons]
    omega
  rw [Message.printed, print_eq htype, print_of_yields hyields hroom]
  rfl

/-- A message without negative lengths whose print ends is well formed. -/
theorem wellFormed_of_printed {m : Message} (hsmall : smallLengths (m.raw.drop 1) = true)
    {text : Bytes} (h : m.printed = .ok (some text)) : WellFormed m := by
  cases htype : m.msgType with
  | none =>
      rw [Message.printed, Message.print, htype] at h
      cases h
  | some msgType =>
      rw [Message.printed, print_eq htype] at h
      cases hloop : (TlvView.ofMessage m).printLoop (m.size + 1) with
      | error e => simp [hloop, Except.map] at h
      | ok rest =>
          cases rest with
          | none => simp [hloop, Except.map] at h
          | some rest =>
              obtain ⟨-, tlvs, v', hyields, hlens⟩ :=
                yields_of_print ⟨rfl, rfl, rfl⟩ hsmall hloop
              obtain ⟨msgType', -, hm⟩ := encode_of_yields hyields
              exact ⟨msgType', tlvs, hlens, hm.symm⟩

/-- A walk of the loop is made of calls that show a TLV. -/
theorem shows_of_walk {v : TlvView} {n : Nat} {p : Nat → TlvView} (h : Walk Round v n p) {k : Nat}
    (hk : k ≤ n) : Shows v k (p k) := by
  induction k with
  | zero =>
      rw [h.start]
      exact .none v
  | succ k ih => exact .more (ih (by omega)) (h.steps k (by omega)).1

/-- A message without negative lengths is not printed for ever. -/
theorem not_endless {m : Message} (hsmall : smallLengths (m.raw.drop 1) = true) :
    m.printed ≠ .ok none := by
  intro h
  cases htype : m.msgType with
  | none =>
      rw [Message.printed, Message.print, htype] at h
      cases h
  | some msgType =>
      rw [Message.printed, print_eq htype] at h
      have hloop : (TlvView.ofMessage m).printLoop (m.size + 1) = .ok none := by
        rcases hprint : (TlvView.ofMessage m).printLoop (m.size + 1) with _ | _ | _ <;>
          simp [hprint, Except.map] at h
        rfl
      obtain ⟨p, hp⟩ := printLoop_none_iff.mp hloop
      have hroom := (shows_le ((smallLengths_iff m).mpr hsmall)
        (shows_of_walk hp (Nat.le_refl _))).2
      omega

/-- No call on a view of a well-formed message leaves the buffer. -/
theorem inBuffer_encode (msgType : UInt8) {tlvs : List (UInt8 × Bytes)}
    (hlens : ∀ p ∈ tlvs, p.2.length < 2 ^ 31) : InBuffer (encode msgType tlvs) := by
  obtain ⟨v', hyields, -⟩ := yields_encode msgType hlens
  exact ⟨fun v hcalls => (hyields.calls hcalls).1, fun v x hcalls hnext =>
    (hyields.calls hcalls).2 x hnext⟩

/-- Where no TLV declares a negative length, a message is printed in full or the process stops. -/
theorem printed_iff {m : Message} (hsmall : smallLengths (m.raw.drop 1) = true) :
    (∃ text, m.printed = .ok (some text)) ↔ WellFormed m := by
  constructor
  · rintro ⟨text, h⟩
    exact wellFormed_of_printed hsmall h
  · rintro ⟨msgType, tlvs, hlens, rfl⟩
    exact ⟨_, printed_encode msgType hlens⟩

/-- A message without negative lengths that is not well formed stops the process. -/
theorem printed_malformed {m : Message} (hsmall : smallLengths (m.raw.drop 1) = true)
    (h : ¬ WellFormed m) : m.printed = .error .undefinedBehavior := by
  cases hprinted : m.printed with
  | error e => rw [print_error hprinted]
  | ok text =>
      cases text with
      | none => exact absurd hprinted (not_endless hsmall)
      | some text => exact absurd (wellFormed_of_printed hsmall hprinted) h

/-! ### A request and its reply -/

/-- Two TLVs that print the same: they are equal, or contents of one length. -/
def LooksAlike (p q : UInt8 × Bytes) : Prop :=
  p = q ∨ p.1 = TlvType.content.toByte ∧ q.1 = TlvType.content.toByte ∧ p.2.length = q.2.length

/-- TLVs that look alike have one length. -/
theorem LooksAlike.length {p q : UInt8 × Bytes} (h : LooksAlike p q) :
    p.2.length = q.2.length := by
  rcases h with rfl | ⟨-, -, h⟩
  · rfl
  · exact h

/-- TLVs that look alike are printed alike. -/
theorem LooksAlike.tlvLines {p q : UInt8 × Bytes} (h : LooksAlike p q) :
    tlvLines p = tlvLines q := by
  rcases h with rfl | ⟨hp, hq, hlen⟩
  · rfl
  · rw [Proofs.tlvLines, Proofs.tlvLines, hp, hq, hlen]
    simp

/-- Of a CONTENT nothing but its length is printed. -/
theorem listing_of_alike (msgType : UInt8) {tlvs tlvs' : List (UInt8 × Bytes)}
    (h : List.Forall₂ LooksAlike tlvs tlvs') : listing msgType tlvs = listing msgType tlvs' := by
  unfold listing
  congr 1
  induction h with
  | nil => rfl
  | cons h _ ih => rw [List.flatMap_cons, List.flatMap_cons, ih, h.tlvLines]

/-- A bound on the lengths holds of all that looks alike. -/
theorem lens_of_alike {tlvs tlvs' : List (UInt8 × Bytes)} (h : List.Forall₂ LooksAlike tlvs tlvs')
    {n : Nat} (hlens : ∀ p ∈ tlvs, p.2.length < n) : ∀ p ∈ tlvs', p.2.length < n := by
  induction h with
  | nil => exact hlens
  | @cons p q _ _ h _ ih =>
      intro r hr
      rcases List.mem_cons.mp hr with rfl | hr
      · rw [← h.length]
        exact hlens p (by simp)
      · exact ih (fun p hp => hlens p (List.mem_cons_of_mem _ hp)) r hr

/-- Every message of a queue is printed in full, and between them they show every TLV once. -/
theorem Carries.printed {q : MessageQueue} {tlvs : List (UInt8 × Bytes)} (h : Carries q tlvs)
    (hlens : ∀ p ∈ tlvs, p.2.length < 2 ^ 31) :
    ∃ parts : List (List (UInt8 × Bytes)), parts.flatten = tlvs ∧
      q.msgs.map Message.printed = parts.map fun part => .ok (some (listing q.msgType part)) := by
  obtain ⟨parts, -, hmsgs, rfl⟩ := h
  refine ⟨parts, rfl, ?_⟩
  rw [hmsgs, List.map_map]
  refine List.map_congr_left fun part hpart => printed_encode q.msgType fun p hp => ?_
  exact hlens p (List.mem_flatten.mpr ⟨part, hpart, hp⟩)

/-- The first value of a message that `add_TLV` has built is one that was put in. -/
theorem FirstValue.mem_encode {msgType : UInt8} {tlvs : List (UInt8 × Bytes)} {value : Bytes}
    (h : FirstValue (encode msgType tlvs) value) (hlens : ∀ p ∈ tlvs, p.2.length < 2 ^ 31) :
    ∃ p ∈ tlvs, p.2 = value := by
  obtain ⟨view, hnext, hvalue⟩ := h
  obtain ⟨v', hyields, -⟩ := yields_encode msgType hlens
  cases hyields with
  | done hdone => exact absurd (hnext.symm.trans hdone) (by simp)
  | @next _ v1 _ t length bytes rest hnext' htype hlength hlen hvalue' hrest =>
      obtain rfl : view = v1 := by simpa using hnext.symm.trans hnext'
      exact ⟨(t, bytes), by simp, Except.ok.inj (hvalue'.symm.trans hvalue)⟩

/-- The ITEMs of a reply have lengths that fit: all but those of a SYNC are echoed. -/
theorem ItemsFit.lens {u : User} {msgType : UInt8} {tlvs : List (UInt8 × Bytes)}
    {items : List Bytes} (h : ItemsFit u (encode msgType tlvs) msgType items)
    (hlens : ∀ p ∈ tlvs, p.2.length < 2 ^ 31)
    (hsync : msgType = MsgType.sync.toByte → ∀ item ∈ items, item.length < 2 ^ 31) :
    ∀ item ∈ items, item.length < 2 ^ 31 := by
  have hecho : items = [] ∨ (∃ sign, FirstValue (encode msgType tlvs) sign ∧ items = [sign]) →
      ∀ item ∈ items, item.length < 2 ^ 31 := by
    rintro (rfl | ⟨sign, hfirst, rfl⟩) item hitem
    · cases hitem
    · obtain rfl := List.mem_singleton.mp hitem
      obtain ⟨p, hp, rfl⟩ := hfirst.mem_encode hlens
      exact hlens p hp
  have hadmitted := @admitted_of_route u msgType
  cases hroute : route u msgType with
  | rejected => exact hecho (Or.inl (h.rejected hroute))
  | auth => exact hecho (Or.inl (h.auth (hadmitted hroute).2))
  | sync => exact hsync (hadmitted hroute).2.2
  | create => exact hecho (h.echo (Or.inl (hadmitted hroute).2.2))
  | update => exact hecho (h.echo (Or.inr (Or.inl (hadmitted hroute).2.2)))
  | erase => exact hecho (h.echo (Or.inr (Or.inr (hadmitted hroute).2.2)))
  | keepAlive => exact hecho (Or.inl (h.keepAlive (hadmitted hroute).2.2))

/-- The digits of an error code. -/
theorem errTypeString_length (err : ErrType) : (errTypeString err).length < 2 ^ 31 := by
  cases err <;> decide

/-- The TLVs of a reply whose ITEMs have lengths that fit. -/
theorem lens_of_items {items : List Bytes} (hitems : ∀ item ∈ items, item.length < 2 ^ 31)
    (status : TlvType) (err : ErrType) :
    ∀ p ∈ itemTlvs items ++ [(status.toByte, if err = .none then [] else errTypeString err),
      (TlvType.end_.toByte, [])], p.2.length < 2 ^ 31 := by
  intro p hp
  simp only [List.mem_append, List.mem_cons, List.not_mem_nil, or_false] at hp
  rcases hp with hp | rfl | rfl
  · obtain ⟨item, hitem, rfl⟩ := List.mem_map.mp hp
    exact hitems item hitem
  · show (if err = .none then [] else errTypeString err).length < 2 ^ 31
    split
    · exact Nat.two_pow_pos 31
    · exact errTypeString_length err
  · exact Nat.two_pow_pos 31

/-- What `connection` prints of a request that is well formed, and of the answer to it: the request
with all its TLVs but the contents, and every message of the reply. Of the lengths in a reply only
those of the ITEMs of a SYNC, which come from the disk, could be too large. -/
structure ExchangePrinted (env : Env) (w : World) (u : User) (msgType : UInt8)
    (tlvs : List (UInt8 × Bytes)) : Prop where
  request : (encode msgType tlvs).printed = .ok (some (listing msgType tlvs))
  hidden : ∀ tlvs', List.Forall₂ LooksAlike tlvs tlvs' →
    (encode msgType tlvs').printed = .ok (some (listing msgType tlvs))
  reply : ∀ r, (handleRequest env w u (encode msgType tlvs)).result = .ok r →
    ∃ items value, Shaped r msgType items ∧
      ((msgType = MsgType.sync.toByte → ∀ item ∈ items, item.length < 2 ^ 31) →
        ∃ parts : List (List (UInt8 × Bytes)),
          parts.flatten = itemTlvs items ++ [(r.status.toByte, value), (TlvType.end_.toByte, [])] ∧
          r.replies.msgs.map Message.printed =
            parts.map fun part => .ok (some (listing msgType part)))

/-- A well-formed request is printed, and so is the reply to it. -/
theorem exchangePrinted_encode (env : Env) (w : World) (u : User) (msgType : UInt8)
    {tlvs : List (UInt8 × Bytes)} (hlens : ∀ p ∈ tlvs, p.2.length < 2 ^ 31) :
    ExchangePrinted env w u msgType tlvs where
  request := printed_encode msgType hlens
  hidden := by
    intro tlvs' halike
    rw [listing_of_alike msgType halike]
    exact printed_encode msgType (lens_of_alike halike hlens)
  reply := by
    intro r hr
    have htype : (encode msgType tlvs).msgType = some msgType := by
      rw [Message.msgType, encode_raw]
      rfl
    obtain ⟨q, items, hitems, hfit, hcloses⟩ := perform_closed env w u htype
    rw [handleRequest_eq_perform] at hr
    obtain ⟨status, err, hstatus, rfl⟩ := hcloses r hr
    refine ⟨items, if err = .none then [] else errTypeString err, hitems.close hstatus err,
      fun hsync => ?_⟩
    obtain ⟨parts, hparts, hprinted⟩ := (hitems.closed status err).printed
      (lens_of_items (hfit.lens hlens hsync) status err)
    -- Every message of the reply has the type of the queue.
    have hqueue : (closeResponse q status err).replies.msgType = msgType := hitems.msgType_eq
    rw [hqueue] at hprinted
    exact ⟨parts, hparts, hprinted⟩

/-- A request without negative lengths is printed within as many rounds as it has bytes, and exactly
when it is a type byte and complete TLVs: then the request and the messages of its reply are printed
in full, with the contents left out. Any other request stops the process before it is handled. -/
theorem exchange_printed (env : Env) (w : World) (u : User) {m : Message}
    (hsmall : smallLengths (m.raw.drop 1) = true) :
    (∀ n, m.size < n → m.print n = m.printed) ∧
      ((InBuffer m ∧ ∃ msgType tlvs, m = encode msgType tlvs ∧
          ExchangePrinted env w u msgType tlvs) ∨
        (¬ WellFormed m ∧ m.printed = .error .undefinedBehavior)) := by
  refine ⟨(print_endless m).2 (not_endless hsmall), ?_⟩
  by_cases hwell : WellFormed m
  · obtain ⟨msgType, tlvs, hlens, rfl⟩ := hwell
    exact Or.inl ⟨inBuffer_encode msgType hlens, msgType, tlvs, rfl,
      exchangePrinted_encode env w u msgType hlens⟩
  · exact Or.inr ⟨hwell, printed_malformed hsmall hwell⟩

/-- `bobby` sends the first chunk of `/a`. The request is printed, and so is the reply, which has
the ITEM of the request. -/
theorem exchange_printed_bobby :
    ∃ msgType tlvs,
      chunk .create (ascii "/a") (ascii "00") (ascii "hi") false = encode msgType tlvs ∧
      ExchangePrinted (bobbyAndBobEnv []) bobbyWorld (bobby []) msgType tlvs ∧
      (handleRequest (bobbyAndBobEnv []) bobbyWorld (bobby []) (encode msgType tlvs)).Answered
        .ok .none := by
  obtain ⟨-, ⟨-, msgType, tlvs, heq, hprinted⟩ | ⟨hbad, -⟩⟩ :=
    @exchange_printed (bobbyAndBobEnv []) bobbyWorld (bobby [])
      (chunk .create (ascii "/a") (ascii "00") (ascii "hi") false)
      (smallLengths_encode _ (by decide +kernel))
  · refine ⟨msgType, tlvs, heq, hprinted, ?_⟩
    rw [← heq]
    decide +kernel
  · exact absurd ⟨_, _, by decide +kernel, rfl⟩ hbad

end RemoteBackup.Proofs
