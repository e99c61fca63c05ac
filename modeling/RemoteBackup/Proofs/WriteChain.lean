import RemoteBackup.Proofs.Serving

/-!
# `RemoteBackup.Proofs.WriteChain`: a reply and its reader

`write_response` and the two handlers behind it send a queue message by message, each behind
its size. `receive` is the reader of such a stream.

* `receive_frames`: the reader gets the messages back that were framed.
* `carries_queueOf`: what a queue carries after any `add_TLV` calls.
* `chain_run`: the chain from a queue, by induction on its messages. Each message takes two
  completions (`header_step`, `message_step`), and the last one ends in `handle_completion`.
* `reply_survives_wire`: all three together.
-/

set_option autoImplicit false

namespace RemoteBackup.Proofs

open Lib

/-! ### The reader -/

/-- A read of `n` bytes takes the first `n`. -/
theorem asyncRead_append {bytes : Bytes} {n : Nat} (h : bytes.length = n) (rest : Bytes) :
    asyncRead n (bytes ++ rest) = some (⟨bytes, h⟩, rest) := by
  subst h
  rw [asyncRead, dif_pos (by simp)]
  simp

/-- A reader of a whole stream: a header, as many bytes as it says, and so on. Nothing when the
stream ends inside a frame. `fuel` bounds the number of frames. -/
def receiveFrom : Nat → Bytes → Option (List Message)
  | _, [] => some []
  | 0, _ => none
  | fuel + 1, stream => do
      let (head, rest) ← asyncRead headerSize stream
      let (body, rest) ← asyncRead (headerOf head.1) rest
      let ms ← receiveFrom fuel rest
      pure (⟨body.1⟩ :: ms)

/-- The reader of a stream. A frame has at least one byte, so there are no more frames than
bytes. -/
def receive (stream : Bytes) : Option (List Message) := receiveFrom stream.length stream

/-- The bytes of a number, least significant first, read back. Induction on their count. -/
theorem headerOf_bytes (k n : Nat) :
    headerOf ((List.range k).map (fun i => UInt8.ofNat (n >>> (8 * i)))) = n % 256 ^ k := by
  induction k generalizing n with
  | zero => simp [headerOf, Nat.mod_one]
  | succ k ih =>
      have hshift : ∀ i, n >>> (8 * (i + 1)) = (n >>> 8) >>> (8 * i) := by
        intro i
        rw [← Nat.shiftRight_add]
        congr 1
        omega
      rw [List.range_succ_eq_map, List.map_cons, List.map_map, headerOf, List.foldr_cons]
      have htail := ih (n >>> 8)
      rw [headerOf] at htail
      simp only [Function.comp_def, Nat.succ_eq_add_one, hshift, htail]
      rw [Nat.pow_succ', Nat.mod_mul]
      simp [Nat.shiftRight_eq_div_pow]

/-- A header is read as the number that was written. -/
theorem headerOf_headerBytes {n : Nat} (h : n < 2 ^ 64) : headerOf (headerBytes n) = n := by
  rw [headerBytes, headerOf_bytes, headerSize, Nat.mod_eq_of_lt]
  omega

/-- A header has eight bytes. -/
theorem headerBytes_length (n : Nat) : (headerBytes n).length = headerSize := by
  simp [headerBytes]

/-- The reader gets back the messages that were framed. Induction on them. -/
theorem receiveFrom_frames {ms : List Message} (h : ∀ m ∈ ms, m.size < 2 ^ 64) {fuel : Nat}
    (hfuel : ms.length ≤ fuel) : receiveFrom fuel (ms.flatMap frame) = some ms := by
  induction ms generalizing fuel with
  | nil => simp [receiveFrom]
  | cons m ms ih =>
      obtain ⟨fuel, rfl⟩ : ∃ k, fuel = k + 1 := ⟨fuel - 1, by simp at hfuel; omega⟩
      have hm := h m (by simp)
      have hhead := asyncRead_append (headerBytes_length m.size) (m.raw ++ ms.flatMap frame)
      have hbody := asyncRead_append (headerOf_headerBytes hm).symm (ms.flatMap frame)
      have hrest := ih (fun x hx => h x (by simp [hx])) (by simpa using hfuel)
      rw [List.flatMap_cons, frame, List.append_assoc]
      have hne : headerBytes m.size ++ (m.raw ++ ms.flatMap frame) ≠ [] := by
        have hlen := headerBytes_length m.size
        rintro hnil
        rw [(List.append_eq_nil_iff.mp hnil).1] at hlen
        simp [headerSize] at hlen
      rw [receiveFrom]
      · simp only [hhead, hbody, hrest, Option.bind_eq_bind, Option.bind_some]
        rfl
      · exact hne

/-- The reader of a stream of frames. -/
theorem receive_frames {ms : List Message} (h : ∀ m ∈ ms, m.size < 2 ^ 64) :
    receive (ms.flatMap frame) = some ms := by
  refine receiveFrom_frames h ?_
  have hlen : ∀ m ∈ ms, 1 ≤ (frame m).length := by
    intro m _
    rw [frame, List.length_append, headerBytes_length, headerSize]
    omega
  clear h
  induction ms with
  | nil => simp
  | cons m ms ih =>
      have hm := hlen m (by simp)
      have hrest := ih fun x hx => hlen x (by simp [hx])
      rw [List.flatMap_cons, List.length_append, List.length_cons]
      omega

/-! ### Queues of any TLVs -/

/-- A fresh queue after `add_TLV` calls. -/
def queueOf (msgType : UInt8) (tlvs : List (UInt8 × Bytes)) : MessageQueue :=
  tlvs.foldl (fun q p => q.addTLV p.1 p.2) (MessageQueue.ofType msgType)

/-- One more TLV behind those of a queue is one more `add_TLV`. -/
theorem queueOf_append (msgType : UInt8) (tlvs : List (UInt8 × Bytes)) (p : UInt8 × Bytes) :
    queueOf msgType (tlvs ++ [p]) = (queueOf msgType tlvs).addTLV p.1 p.2 := by
  simp [queueOf]

/-- A queue carries the TLVs that were added to it, and has its type. -/
theorem carries_queueOf (msgType : UInt8) (tlvs : List (UInt8 × Bytes)) :
    Carries (queueOf msgType tlvs) tlvs ∧ (queueOf msgType tlvs).msgType = msgType := by
  induction tlvs using List.reverseRecOn with
  | nil => exact ⟨carries_ofType msgType, rfl⟩
  | append_singleton tlvs p ih =>
      rw [queueOf_append]
      exact ⟨ih.1.addTLV p.1 p.2, ih.2⟩

/-- A TLV takes its type, four bytes of length and its value. -/
theorem addTLV_size (m : Message) (tlvType : UInt8) (value : Bytes) :
    (m.addTLV tlvType value).size = m.size + 1 + 4 + value.length := by
  simp [Message.addTLV, Message.size, Message.lengthBytes]
  omega

/-- A message of a queue fits into a chunk, or it holds one long TLV. -/
theorem queueOf_size {msgType : UInt8} {tlvs : List (UInt8 × Bytes)}
    (h : ∀ p ∈ tlvs, p.2.length < 2 ^ 31) {m : Message} (hm : m ∈ (queueOf msgType tlvs).msgs) :
    m.size < 2 ^ 64 := by
  induction tlvs using List.reverseRecOn generalizing m with
  | nil =>
      obtain rfl := List.mem_singleton.mp hm
      simp [Message.size, Message.ofType]
  | append_singleton tlvs p ih =>
      have hp := h p (by simp)
      replace ih : ∀ m ∈ (queueOf msgType tlvs).msgs, m.size < 2 ^ 64 :=
        fun m hm => ih (fun p hp => h p (by simp [hp])) hm
      rw [queueOf_append] at hm
      obtain ⟨last, hlast⟩ : ∃ last, (queueOf msgType tlvs).msgs.getLast? = some last := by
        rw [List.getLast?_eq_some_getLast (carries_queueOf msgType tlvs).1.ne_nil]
        exact ⟨_, rfl⟩
      simp only [MessageQueue.addTLV, hlast] at hm
      split at hm
      -- A message that grows stays below the limit, and a new one holds one TLV.
      · rename_i hfits
        rcases List.mem_append.mp hm with hm | hm
        · exact ih m (List.dropLast_subset _ hm)
        · rw [List.mem_singleton.mp hm, addTLV_size]
          simp only [chunkSize] at hfits
          omega
      · rcases List.mem_append.mp hm with hm | hm
        · exact ih m hm
        · rw [List.mem_singleton.mp hm, addTLV_size]
          simp only [Message.size, Message.ofType, List.length_singleton]
          omega

/-! ### The chain -/

/-- The write of the header of `m` is pending, and `rest` are the messages behind it. -/
structure AtHeader (s : Cycle) (m : Message) (rest : List Message) : Prop where
  halt : s.halt = none
  timedOut : s.timedOut = false
  pending : s.pending = [.writeHeader]
  msgs : s.replies_.msgs = m :: rest
  header : s.header_ = m.size

/-- The write of the bytes of `m` is pending. -/
structure AtMessage (s : Cycle) (m : Message) (rest : List Message) : Prop where
  halt : s.halt = none
  timedOut : s.timedOut = false
  pending : s.pending = [.writeMessage rest.isEmpty]
  msg : s.msg_ = m
  msgs : s.replies_.msgs = rest

/-- The number of times `handle_completion` has run. -/
def completions (s : Cycle) : Nat := s.log.count .handledCompletion

/-- `write_response` begins with the first message of the queue. -/
theorem atHeader_writeResponse {s : Cycle} {m : Message} {rest : List Message}
    (hhalt : s.halt = none) (htimed : s.timedOut = false) (hpending : s.pending = [])
    (hq : s.replies_.msgs = m :: rest) :
    AtHeader (s.writeResponse false) m rest ∧ (s.writeResponse false).sent = s.sent ∧
      completions (s.writeResponse false) = completions s := by
  rw [Cycle.writeResponse, if_neg (by simp [htimed])]
  simp only [Bool.false_eq_true, if_false, hq]
  refine ⟨⟨hhalt, htimed, ?_, hq, rfl⟩, rfl, ?_⟩
  · rw [Cycle.begin, hpending]
    rfl
  · simp [completions, Cycle.begin]

/-- A header is written, and the message is next. -/
theorem header_step {env : Env} {allocates : Nat → Bool} {s : Cycle} {m : Message}
    {rest : List Message} (h : AtHeader s m rest) :
    AtMessage (Cycle.step env s (.succeed 0 allocates)) m rest ∧
      (Cycle.step env s (.succeed 0 allocates)).sent = s.sent ++ headerBytes m.size ∧
      completions (Cycle.step env s (.succeed 0 allocates)) = completions s := by
  rw [Cycle.step, if_neg (by simp [h.halt])]
  simp only [h.pending, List.getElem?_cons_zero, List.eraseIdx_zero, List.tail_cons,
    Cycle.succeeded, Cycle.headerWritten, Cycle.note, h.timedOut, Bool.false_eq_true, if_false,
    h.msgs, h.header, Cycle.begin]
  exact ⟨⟨h.halt, rfl, rfl, rfl, rfl⟩, trivial, by simp [completions]⟩

/-- A message with others behind it. -/
theorem message_step {env : Env} {allocates : Nat → Bool} {s : Cycle} {m m' : Message}
    {rest : List Message} (h : AtMessage s m (m' :: rest)) :
    AtHeader (Cycle.step env s (.succeed 0 allocates)) m' rest ∧
      (Cycle.step env s (.succeed 0 allocates)).sent = s.sent ++ m.raw ∧
      completions (Cycle.step env s (.succeed 0 allocates)) = completions s := by
  rw [Cycle.step, if_neg (by simp [h.halt])]
  simp only [h.pending, List.getElem?_cons_zero, List.eraseIdx_zero, List.tail_cons,
    Cycle.succeeded, List.isEmpty_cons, Bool.false_eq_true, if_false, Cycle.writeResponse,
    Cycle.note, h.timedOut, h.msgs, h.msg, Cycle.begin]
  exact ⟨⟨h.halt, rfl, rfl, h.msgs, rfl⟩, trivial, by simp [completions]⟩

/-- `handle_completion` sends nothing, and leaves the queue. -/
theorem handleCompletion_eq {s : Cycle} (htimed : s.timedOut = false) :
    (s.handleCompletion false).replies_ = s.replies_ ∧
      (s.handleCompletion false).sent = s.sent ∧
      completions (s.handleCompletion false) = completions s + 1 := by
  rw [Cycle.handleCompletion, if_neg (by simp [Cycle.note, htimed]), Cycle.logWrite]
  rcases logResult_eq (s.note .handledCompletion) (s.note .handledCompletion).replies_.msgType
    (if (s.note .handledCompletion).replies_.verifyError then .err else .ok)
    (if false then .err else .ok) with ⟨lines, heq⟩ | heq
  · rw [heq, Cycle.andThen]
    split
    · exact ⟨rfl, rfl, by simp [completions, Cycle.note]⟩
    · obtain ⟨armed, queued, hsched⟩ :=
        scheduleTimeout_eq { s.note .handledCompletion with lines := lines }
      simp only [Bool.false_eq_true, if_false, Cycle.readRequest, hsched]
      rw [if_neg (by simp [Cycle.note, htimed])]
      exact ⟨rfl, rfl, by simp [completions, Cycle.note, Cycle.begin]⟩
  · rw [heq]
    exact ⟨rfl, rfl, by simp [completions, Cycle.note, Cycle.andThen]⟩

/-- The last message: `handle_completion` runs. -/
theorem last_step {env : Env} {allocates : Nat → Bool} {s : Cycle} {m : Message}
    (h : AtMessage s m []) :
    (Cycle.step env s (.succeed 0 allocates)).replies_.msgs = [] ∧
      (Cycle.step env s (.succeed 0 allocates)).sent = s.sent ++ m.raw ∧
      completions (Cycle.step env s (.succeed 0 allocates)) = completions s + 1 := by
  rw [Cycle.step, if_neg (by simp [h.halt])]
  simp only [h.pending, List.getElem?_cons_zero, List.eraseIdx_zero, List.tail_cons,
    Cycle.succeeded, List.isEmpty_nil, if_true]
  obtain ⟨hreplies, hsent, hcount⟩ := handleCompletion_eq
    (s := { s with pending := [], sent := s.sent ++ s.msg_.raw }.note (.wrote s.msg_)) h.timedOut
  rw [hreplies, hsent, hcount]
  exact ⟨h.msgs, by rw [← h.msg]; rfl, by simp [completions, Cycle.note]⟩

/-- A write is pending, `handle_completion` has run `n` times, and the process runs. -/
def MidChain (s : Cycle) (n : Nat) : Prop :=
  s.halt = none ∧ completions s = n ∧
    (s.pending = [.writeHeader] ∨ ∃ last, s.pending = [.writeMessage last])

/-- While a header is being written the reply is not complete. -/
theorem AtHeader.midChain {s : Cycle} {m : Message} {rest : List Message}
    (h : AtHeader s m rest) : MidChain s (completions s) :=
  ⟨h.halt, rfl, Or.inl h.pending⟩

/-- Nor is it while a message is being written. -/
theorem AtMessage.midChain {s : Cycle} {m : Message} {rest : List Message}
    (h : AtMessage s m rest) : MidChain s (completions s) :=
  ⟨h.halt, rfl, Or.inr ⟨_, h.pending⟩⟩

/-- Two completions for each message, in the order of the queue. Induction on the messages
behind the first. -/
theorem chain_run {env : Env} {allocates : Nat → Bool} {s : Cycle} {m : Message}
    {rest : List Message} (h : AtHeader s m rest) :
    (∀ k < 2 * (rest.length + 1),
      MidChain (run (Cycle.step env) s (List.replicate k (.succeed 0 allocates)))
        (completions s)) ∧
    (run (Cycle.step env) s
        (List.replicate (2 * (rest.length + 1)) (.succeed 0 allocates))).replies_.msgs = [] ∧
    (run (Cycle.step env) s
        (List.replicate (2 * (rest.length + 1)) (.succeed 0 allocates))).sent =
      s.sent ++ (m :: rest).flatMap frame ∧
    completions (run (Cycle.step env) s
        (List.replicate (2 * (rest.length + 1)) (.succeed 0 allocates))) = completions s + 1 := by
  induction rest generalizing s m with
  | nil =>
      obtain ⟨hmessage, hsent, hcount⟩ := @header_step env allocates s m [] h
      obtain ⟨hmsgs, hsent', hcount'⟩ := @last_step env allocates _ m hmessage
      refine ⟨?_, hmsgs, ?_, ?_⟩
      · intro k hk
        obtain _ | _ | k := k
        · exact h.midChain
        · exact hcount ▸ hmessage.midChain
        · rw [List.length_nil] at hk
          omega
      · exact hsent'.trans (by rw [hsent]; simp [frame])
      · exact hcount'.trans (by rw [hcount])
  | cons m' rest ih =>
      obtain ⟨hmessage, hsent, hcount⟩ := @header_step env allocates s m (m' :: rest) h
      obtain ⟨hheader, hsent', hcount'⟩ := @message_step env allocates _ m m' rest hmessage
      obtain ⟨hmid, hmsgs, hsent'', hcount''⟩ := ih hheader
      rw [hcount', hcount] at hmid hcount''
      -- The first two completions are those of `m`.
      have hlen : 2 * ((m' :: rest).length + 1) = 2 * (rest.length + 1) + 2 := by
        rw [List.length_cons]
        omega
      rw [hlen]
      refine ⟨?_, hmsgs, ?_, hcount''⟩
      · intro k hk
        obtain _ | _ | k := k
        · exact h.midChain
        · exact hcount ▸ hmessage.midChain
        · exact hmid k (by omega)
      · exact hsent''.trans (by rw [hsent', hsent]; simp [frame])

/-- Replies survive the wire. From any connection whose queue was made by `add_TLV` calls on a
fresh one, `write_response` and the completions behind it send bytes from which the reader gets
messages of the queue's type, and the iterations of these messages show the TLVs that were
added, in their order. Until the last write the process runs and `handle_completion` does not,
so `front()` never met an empty queue; then it runs once, and the queue is empty. -/
theorem reply_survives_wire (env : Env) (allocates : Nat → Bool) (s : Cycle) (msgType : UInt8)
    (tlvs : List (UInt8 × Bytes)) (hlen : ∀ p ∈ tlvs, p.2.length < 2 ^ 31)
    (hhalt : s.halt = none) (htimed : s.timedOut = false) (hpending : s.pending = [])
    (hq : s.replies_ = queueOf msgType tlvs) :
    (∀ k < 2 * s.replies_.msgs.length,
      MidChain (run (Cycle.step env) (s.writeResponse false)
        (List.replicate k (.succeed 0 allocates))) (completions s)) ∧
    ∃ s', s' = run (Cycle.step env) (s.writeResponse false)
        (List.replicate (2 * s.replies_.msgs.length) (.succeed 0 allocates)) ∧
      s'.replies_.msgs = [] ∧ completions s' = completions s + 1 ∧
      ∃ (bytes : Bytes) (parts : List (List (UInt8 × Bytes))), s'.sent = s.sent ++ bytes ∧
        receive bytes = some (parts.map (encode msgType)) ∧ parts.flatten = tlvs ∧
        ∀ part ∈ parts, (encode msgType part).msgType = some msgType ∧
          ∃ v', Yields (TlvView.ofMessage (encode msgType part)) part v' ∧
            v'.nextTlv = .ok (false, v') := by
  obtain ⟨⟨parts, hparts, hmsgs, hflat⟩, htype⟩ := carries_queueOf msgType tlvs
  rw [htype] at hmsgs
  obtain ⟨part, rest, rfl⟩ := List.exists_cons_of_ne_nil hparts
  have hqueue : s.replies_.msgs = encode msgType part :: rest.map (encode msgType) := by
    rw [hq, hmsgs, List.map_cons]
  obtain ⟨hheader, hsent, hcount⟩ := atHeader_writeResponse hhalt htimed hpending hqueue
  -- Two operations for each message: its header, then its bytes.
  obtain ⟨hmid, hempty, hsent', hcount'⟩ := @chain_run env allocates _ _ _ hheader
  rw [hcount] at hmid hcount'
  have hlength : s.replies_.msgs.length = (rest.map (encode msgType)).length + 1 := by
    rw [hqueue, List.length_cons]
  rw [hlength]
  refine ⟨hmid, _, rfl, hempty, hcount', _, part :: rest, hsent'.trans (by rw [hsent]), ?_, hflat,
    ?_⟩
  · refine receive_frames fun m hm => ?_
    have hin : m ∈ (queueOf msgType tlvs).msgs := by
      rw [hmsgs]
      exact hm
    exact queueOf_size hlen hin
  · intro x hx
    refine ⟨by simp [Message.msgType, encode_raw], yields_encode msgType fun p hp => hlen p ?_⟩
    rw [← hflat]
    exact List.mem_flatten.mpr ⟨x, hx, hp⟩

/-- An ITEM that fills a message to its last byte, and two TLVs that come into the next one. -/
def fullItem : List (UInt8 × Bytes) :=
  [(TlvType.item.toByte, List.replicate 4090 65), (TlvType.ok.toByte, []),
    (TlvType.end_.toByte, [])]

/-- A connection that is about to answer with these TLVs. -/
def aboutToAnswer : Cycle :=
  { Cycle.start (World.ofDisk Disk.empty) false false [] [] with
    pending := []
    replies_ := queueOf MsgType.sync.toByte fullItem }

/-- The reply is in two messages. After four completions `handle_completion` has run, and the client
reads all the TLVs. -/
theorem reply_survives_wire_full :
    aboutToAnswer.replies_.msgs.length = 2 ∧
      ∃ s', s' = run (Cycle.step (Env.ofTables [] none [] [])) (aboutToAnswer.writeResponse false)
          (List.replicate (2 * aboutToAnswer.replies_.msgs.length) (.succeed 0 fun _ => true)) ∧
        s'.replies_.msgs = [] ∧ completions s' = completions aboutToAnswer + 1 ∧
        ∃ (bytes : Bytes) (parts : List (List (UInt8 × Bytes))),
          s'.sent = aboutToAnswer.sent ++ bytes ∧
          receive bytes = some (parts.map (encode MsgType.sync.toByte)) ∧
          parts.flatten = fullItem := by
  obtain ⟨-, s', hs', hempty, hcount, bytes, parts, hsent, hreceive, hflat, -⟩ :=
    reply_survives_wire (Env.ofTables [] none [] []) (fun _ => true) aboutToAnswer
      MsgType.sync.toByte fullItem
      (List.forall_mem_cons.mpr ⟨by rw [List.length_replicate]; omega, by decide⟩) rfl rfl rfl rfl
  exact ⟨by decide +kernel, s', hs', hempty, hcount, bytes, parts, hsent, hreceive, hflat⟩

end RemoteBackup.Proofs
