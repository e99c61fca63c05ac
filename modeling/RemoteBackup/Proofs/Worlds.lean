import RemoteBackup.Core.World

/-!
# `RemoteBackup.Proofs.Worlds`: what the operations on the world do

One lemma for each operation and each part of the world it touches. Two notions carry the
streams: `openOn` is the file a user's stream writes to, and `settled` is what the bytes of a
file will be once that stream is closed, that is the bytes on the disk and then the bytes
the stream still holds.

* `write_settled`: a write appends its bytes to the settled bytes of the stream's file.
  Handing buffered bytes over (`drain_settled`) changes nothing settled.
* `closed_content`: after `close` and `erase_stream` the disk holds the settled bytes.
* `getStream_cases`: the new stream goes into the table only when the user has none.
-/

set_option autoImplicit false

namespace RemoteBackup

open Lib

/-- The paths that a call hands to `create_directories`, to an `ofstream`, to `remove` or to
`rename`. The other calls change nothing on the disk. -/
def FsCall.handed : FsCall → List Path
  | .createDirectories p => [p]
  | .openStream p => [p]
  | .remove p => [p]
  | .rename p q => [p, q]
  | _ => []

namespace World

/-- Every call made since `w` satisfies `P`. -/
def CallsSince (P : FsCall → Prop) (w w' : World) : Prop :=
  ∃ new, w'.calls = new ++ w.calls ∧ ∀ c ∈ new, P c

/-- Where no call was made, every call since has any property. -/
theorem CallsSince.of_calls_eq {P : FsCall → Prop} {w w' : World} (h : w'.calls = w.calls) :
    CallsSince P w w' := ⟨[], h, by simp⟩

/-- The calls since `w` are the ones in front of those of `w`. -/
theorem CallsSince.of_calls_append {P : FsCall → Prop} {w w' : World} {new : List FsCall}
    (h : w'.calls = new ++ w.calls) : CallsSince P w w' ↔ ∀ c ∈ new, P c := by
  constructor
  · rintro ⟨new', hnew, hP⟩
    rw [h, List.append_cancel_right_eq] at hnew
    rwa [hnew]
  · exact fun hP => ⟨new, h, hP⟩

/-- One call was made since `w`. -/
theorem CallsSince.of_calls_cons {P : FsCall → Prop} {w w' : World} {c : FsCall}
    (h : w'.calls = c :: w.calls) : CallsSince P w w' ↔ P c := by
  rw [@CallsSince.of_calls_append P w w' [c] h, List.forall_mem_singleton]

/-- The calls since `w` are the calls up to a world in between and the calls since then. -/
theorem CallsSince.trans_iff {P : FsCall → Prop} {w w' w'' : World} (h : w.calls <:+ w'.calls)
    (h' : w'.calls <:+ w''.calls) :
    CallsSince P w w'' ↔ CallsSince P w w' ∧ CallsSince P w' w'' := by
  obtain ⟨new, hnew⟩ := h
  obtain ⟨new', hnew'⟩ := h'
  have hall : w''.calls = (new' ++ new) ++ w.calls := by
    rw [← hnew', ← hnew, List.append_assoc]
  rw [of_calls_append hall, of_calls_append hnew.symm, of_calls_append hnew'.symm,
    List.forall_mem_append]
  exact and_comm

/-- The calls of two steps are those of the first and those of the second. -/
theorem CallsSince.trans {P : FsCall → Prop} {w w' w'' : World} (h : CallsSince P w w')
    (h' : CallsSince P w' w'') : CallsSince P w w'' := by
  have hsuffix := h
  have hsuffix' := h'
  obtain ⟨new, hnew, -⟩ := hsuffix
  obtain ⟨new', hnew', -⟩ := hsuffix'
  exact (trans_iff ⟨new, hnew.symm⟩ ⟨new', hnew'.symm⟩).mpr ⟨h, h'⟩

variable (env : Env) (w : World) (id : Bytes)

/-- The file that a user's stream writes to. -/
def openOn : Option Nat := (w.streams id).bind Stream.inode

/-- The bytes of a file once the user's stream is closed. -/
def settled (i : Nat) : Bytes :=
  w.disk.content i ++ if w.openOn id = some i then w.pendingOf id else []

/-! ### Setters -/

/-- Taking note of a call leaves the disk alone. -/
@[simp] theorem record_disk (c : FsCall) : (w.record c).disk = w.disk := rfl

/-- Taking note of a call leaves the stream table alone. -/
@[simp] theorem record_streams (c : FsCall) : (w.record c).streams = w.streams := rfl

/-- The latest call stands in front. -/
@[simp] theorem record_calls (c : FsCall) : (w.record c).calls = c :: w.calls := rfl

/-- The disk is the one that was put in. -/
@[simp] theorem withDisk_disk (d : Disk) (h : w.disk.next ≤ d.next) :
    (w.withDisk d h).disk = d := rfl

/-- Another disk under the same stream table. -/
@[simp] theorem withDisk_streams (d : Disk) (h : w.disk.next ≤ d.next) :
    (w.withDisk d h).streams = w.streams := rfl

/-- Another disk after the same calls. -/
@[simp] theorem withDisk_calls (d : Disk) (h : w.disk.next ≤ d.next) :
    (w.withDisk d h).calls = w.calls := rfl

/-- A change of the stream table leaves the disk alone. -/
@[simp] theorem withStream_disk (s : Option Stream)
    (h : ∀ t i, s = some t → t.inode = some i → i < w.disk.next) :
    (w.withStream id s h).disk = w.disk := rfl

/-- Only the entry of the one user changes. -/
@[simp] theorem withStream_streams (s : Option Stream)
    (h : ∀ t i, s = some t → t.inode = some i → i < w.disk.next) :
    (w.withStream id s h).streams = Function.update w.streams id s := rfl

/-- A change of the stream table is no call of the file system. -/
@[simp] theorem withStream_calls (s : Option Stream)
    (h : ∀ t i, s = some t → t.inode = some i → i < w.disk.next) :
    (w.withStream id s h).calls = w.calls := rfl

/-! ### Streams -/

variable {w id}

/-- A user's stream is open on a file when its entry names the inode, whatever the buffer holds. -/
theorem openOn_eq_some {i : Nat} : w.openOn id = some i ↔ ∃ p, w.streams id = some ⟨some i, p⟩ := by
  unfold openOn
  constructor
  · intro h
    obtain ⟨⟨inode, p⟩, hs, hi⟩ := Option.bind_eq_some_iff.mp h
    exact ⟨p, by rw [hs, ← hi]⟩
  · rintro ⟨p, hs⟩
    rw [hs]
    rfl

/-- A stream can be used when it is open on a file. -/
theorem usable_eq : w.usable id = (w.openOn id).isSome := by
  unfold usable openOn
  cases w.streams id <;> rfl

/-- A user's open stream writes to a file that is in use. -/
theorem openOn_lt {i : Nat} (h : w.openOn id = some i) : i < w.disk.next := by
  obtain ⟨p, hs⟩ := openOn_eq_some.mp h
  exact w.streams_fresh id _ i hs rfl

/-- Without an open stream there is nothing to write out. -/
theorem drain_of_openOn_none (h : w.openOn id = none) (k : Nat) : w.drain id k = w := by
  unfold drain
  split
  · rename_i i pending hs
    rw [openOn, hs] at h
    exact absurd h (by simp)
  · rfl

/-- Writing out part of a buffer moves these bytes from its front to the end of the file. -/
theorem drain_of_streams {i : Nat} {p : Bytes} (h : w.streams id = some ⟨some i, p⟩) (k : Nat) :
    (w.drain id k).disk = w.disk.appendTo i (p.take k) ∧
      (w.drain id k).streams = Function.update w.streams id (some ⟨some i, p.drop k⟩) ∧
      (w.drain id k).calls = w.calls := by
  unfold drain
  split
  · rename_i j q hs
    rw [h] at hs
    cases hs
    exact ⟨rfl, rfl, rfl⟩
  · rename_i hs
    exact absurd h (hs i p)

/-- Without an open stream nothing is buffered. -/
theorem buffer_of_openOn_none (h : w.openOn id = none) (bs : Bytes) : w.buffer id bs = w := by
  unfold buffer
  split
  · rename_i i pending hs
    rw [openOn, hs] at h
    exact absurd h (by simp)
  · rfl

/-- Buffered bytes go behind those that wait already, and the file does not see them yet. -/
theorem buffer_of_streams {i : Nat} {p : Bytes} (h : w.streams id = some ⟨some i, p⟩)
    (bs : Bytes) : (w.buffer id bs).disk = w.disk ∧
      (w.buffer id bs).streams = Function.update w.streams id (some ⟨some i, p ++ bs⟩) ∧
      (w.buffer id bs).calls = w.calls := by
  unfold buffer
  split
  · rename_i j q hs
    rw [h] at hs
    cases hs
    exact ⟨rfl, rfl, rfl⟩
  · rename_i hs
    exact absurd h (hs i p)

variable (w id)

/-- A user's stream is open on a file, or operations on it do nothing. -/
theorem openOn_cases : w.openOn id = none ∨ ∃ i p, w.streams id = some ⟨some i, p⟩ := by
  cases h : w.openOn id with
  | none => exact Or.inl rfl
  | some i => exact Or.inr ⟨i, openOn_eq_some.mp h⟩

/-- Writing out a buffer makes and removes no entry of the tree. -/
@[simp] theorem drain_node (k : Nat) : (w.drain id k).disk.node = w.disk.node := by
  rcases w.openOn_cases id with h | ⟨i, p, h⟩
  · rw [drain_of_openOn_none h]
  · rw [(drain_of_streams h k).1, Disk.appendTo_node]

/-- Writing out a buffer takes no inode. -/
@[simp] theorem drain_next (k : Nat) : (w.drain id k).disk.next = w.disk.next := by
  rcases w.openOn_cases id with h | ⟨i, p, h⟩
  · rw [drain_of_openOn_none h]
  · rw [(drain_of_streams h k).1, Disk.appendTo_next]

/-- Writing out a buffer is none of the recorded calls. -/
@[simp] theorem drain_calls (k : Nat) : (w.drain id k).calls = w.calls := by
  rcases w.openOn_cases id with h | ⟨i, p, h⟩
  · rw [drain_of_openOn_none h]
  · exact (drain_of_streams h k).2.2

/-- Writing out a buffer leaves the streams of other users alone. -/
theorem drain_streams_of_ne (k : Nat) {id' : Bytes} (hne : id' ≠ id) :
    (w.drain id k).streams id' = w.streams id' := by
  rcases w.openOn_cases id with h | ⟨i, p, h⟩
  · rw [drain_of_openOn_none h]
  · rw [(drain_of_streams h k).2.1, Function.update_of_ne hne]

/-- A stream stays on its file while its buffer is written out. -/
@[simp] theorem drain_openOn (k : Nat) : (w.drain id k).openOn id = w.openOn id := by
  rcases w.openOn_cases id with h | ⟨i, p, h⟩
  · rw [drain_of_openOn_none h]
  · rw [openOn, openOn, (drain_of_streams h k).2.1, Function.update_self, h]
    rfl

/-- Handing buffered bytes over changes nothing settled. -/
@[simp] theorem drain_settled (k : Nat) : (w.drain id k).settled id = w.settled id := by
  rcases w.openOn_cases id with h | ⟨i, p, h⟩
  · rw [drain_of_openOn_none h]
  · funext j
    have hopen : w.openOn id = some i := openOn_eq_some.mpr ⟨p, h⟩
    have hpend : (w.drain id k).pendingOf id = p.drop k := by
      simp [pendingOf, (drain_of_streams h k).2.1]
    have hpend' : w.pendingOf id = p := by simp [pendingOf, h]
    unfold settled
    rw [drain_openOn, hopen, hpend, hpend', (drain_of_streams h k).1, Disk.appendTo_content]
    by_cases hj : j = i
    · subst hj
      simp
    · simp [Function.update_of_ne hj, Ne.symm hj]

/-- Only the bytes of the stream's own file can change. -/
theorem drain_content_of_ne (k : Nat) {j : Nat} (hj : w.openOn id ≠ some j) :
    (w.drain id k).disk.content j = w.disk.content j := by
  rcases w.openOn_cases id with h | ⟨i, p, h⟩
  · rw [drain_of_openOn_none h]
  · have hne : j ≠ i := by
      rintro rfl
      exact hj (openOn_eq_some.mpr ⟨p, h⟩)
    rw [(drain_of_streams h k).1, Disk.appendTo_content, Function.update_of_ne hne]

/-- Buffered bytes do not reach the disk. -/
theorem buffer_disk (bs : Bytes) : (w.buffer id bs).disk = w.disk := by
  rcases w.openOn_cases id with h | ⟨i, p, h⟩
  · rw [buffer_of_openOn_none h]
  · exact (buffer_of_streams h bs).1

/-- Buffering is none of the recorded calls. -/
theorem buffer_calls (bs : Bytes) : (w.buffer id bs).calls = w.calls := by
  rcases w.openOn_cases id with h | ⟨i, p, h⟩
  · rw [buffer_of_openOn_none h]
  · exact (buffer_of_streams h bs).2.2

/-- Buffering leaves the streams of other users alone. -/
theorem buffer_streams_of_ne (bs : Bytes) {id' : Bytes} (hne : id' ≠ id) :
    (w.buffer id bs).streams id' = w.streams id' := by
  rcases w.openOn_cases id with h | ⟨i, p, h⟩
  · rw [buffer_of_openOn_none h]
  · rw [(buffer_of_streams h bs).2.1, Function.update_of_ne hne]

/-- A stream stays on its file when bytes are buffered. -/
theorem buffer_openOn (bs : Bytes) : (w.buffer id bs).openOn id = w.openOn id := by
  rcases w.openOn_cases id with h | ⟨i, p, h⟩
  · rw [buffer_of_openOn_none h]
  · rw [openOn, openOn, (buffer_of_streams h bs).2.1, Function.update_self, h]
    rfl

/-- What a file will hold once the stream is closed grows by the buffered bytes, if the stream is on
it. -/
theorem buffer_settled (bs : Bytes) (i : Nat) : (w.buffer id bs).settled id i =
    w.settled id i ++ if w.openOn id = some i then bs else [] := by
  rcases w.openOn_cases id with h | ⟨j, p, h⟩
  · rw [buffer_of_openOn_none h, h]
    simp
  · have hpend : (w.buffer id bs).pendingOf id = p ++ bs := by
      simp [pendingOf, (buffer_of_streams h bs).2.1]
    have hpend' : w.pendingOf id = p := by simp [pendingOf, h]
    unfold settled
    rw [buffer_openOn, buffer_disk, hpend, hpend']
    split <;> simp

/-! ### Writing -/

/-- A write makes and removes no entry of the tree. -/
@[simp] theorem write_node (bs : Bytes) : (w.write env id bs).disk.node = w.disk.node := by
  rw [write, drain_node, buffer_disk]

/-- A write takes no inode. -/
@[simp] theorem write_next (bs : Bytes) : (w.write env id bs).disk.next = w.disk.next := by
  rw [write, drain_next, buffer_disk]

/-- A write is none of the recorded calls. -/
@[simp] theorem write_calls (bs : Bytes) : (w.write env id bs).calls = w.calls := by
  rw [write, drain_calls, buffer_calls]

/-- A write leaves the streams of other users alone. -/
theorem write_streams_of_ne (bs : Bytes) {id' : Bytes} (hne : id' ≠ id) :
    (w.write env id bs).streams id' = w.streams id' := by
  rw [write, drain_streams_of_ne _ _ _ hne, buffer_streams_of_ne _ _ _ hne]

/-- A write changes no file but the one that the stream is on. -/
theorem write_content_of_ne (bs : Bytes) {j : Nat} (hj : w.openOn id ≠ some j) :
    (w.write env id bs).disk.content j = w.disk.content j := by
  rw [write, drain_content_of_ne _ _ _ (by rwa [buffer_openOn]), buffer_disk]

/-- A stream stays on its file when it is written to. -/
@[simp] theorem write_openOn (bs : Bytes) : (w.write env id bs).openOn id = w.openOn id := by
  rw [write, drain_openOn, buffer_openOn]

/-- A write appends its bytes to the settled bytes of the stream's file, and to no other
file's. -/
theorem write_settled (bs : Bytes) (i : Nat) : (w.write env id bs).settled id i =
    w.settled id i ++ if w.openOn id = some i then bs else [] := by
  rw [write, drain_settled, buffer_settled]

/-- A flush makes and removes no entry of the tree. -/
@[simp] theorem flush_node : (w.flush id).disk.node = w.disk.node := drain_node w id _

/-- A flush takes no inode. -/
@[simp] theorem flush_next : (w.flush id).disk.next = w.disk.next := drain_next w id _

/-- A flush is none of the recorded calls. -/
@[simp] theorem flush_calls : (w.flush id).calls = w.calls := drain_calls w id _

/-- A flush leaves the streams of other users alone. -/
theorem flush_streams_of_ne {id' : Bytes} (hne : id' ≠ id) :
    (w.flush id).streams id' = w.streams id' := drain_streams_of_ne w id _ hne

/-- A flush changes no file but the one that the stream is on. -/
theorem flush_content_of_ne {j : Nat} (hj : w.openOn id ≠ some j) :
    (w.flush id).disk.content j = w.disk.content j := drain_content_of_ne w id _ hj

/-- A stream stays on its file when it is flushed. -/
@[simp] theorem flush_openOn : (w.flush id).openOn id = w.openOn id := drain_openOn w id _

/-- A flush does not change what a file will hold once the stream is closed. -/
@[simp] theorem flush_settled : (w.flush id).settled id = w.settled id := drain_settled w id _

/-- After a flush the stream's own bytes are on the disk. -/
theorem flush_content : (w.flush id).disk.content = w.settled id := by
  rcases w.openOn_cases id with h | ⟨i, p, h⟩
  · rw [flush, drain_of_openOn_none h]
    funext j
    simp [settled, h]
  · have hpend : w.pendingOf id = p := by simp [pendingOf, h]
    have hopen : w.openOn id = some i := openOn_eq_some.mpr ⟨p, h⟩
    rw [flush, (drain_of_streams h _).1, hpend, List.take_length, Disk.appendTo_content]
    funext j
    unfold settled
    rw [hopen, hpend]
    by_cases hj : j = i
    · subst hj
      simp
    · simp [Function.update_of_ne hj, Ne.symm hj]

/-! ### Closing -/

/-- To the disk, closing is flushing. -/
@[simp] theorem close_disk : (w.close id).disk = (w.flush id).disk := rfl

/-- Closing a stream is none of the recorded calls. -/
@[simp] theorem close_calls : (w.close id).calls = w.calls := flush_calls w id

/-- The destructor of a stream flushes it. -/
theorem eraseStream_disk : (w.eraseStream id).disk = (w.flush id).disk := rfl

/-- Erasing a stream is none of the recorded calls. -/
@[simp] theorem eraseStream_calls : (w.eraseStream id).calls = w.calls := flush_calls w id

/-- The user has no stream afterwards. -/
@[simp] theorem eraseStream_streams_self : (w.eraseStream id).streams id = none := by
  simp [eraseStream]

/-- The streams of other users stay in the table. -/
theorem eraseStream_streams_of_ne {id' : Bytes} (hne : id' ≠ id) :
    (w.eraseStream id).streams id' = w.streams id' := by
  simp [eraseStream, Function.update_of_ne hne, flush_streams_of_ne w id hne]

/-- `close` and then `erase_stream`: nothing is left to flush for the second. -/
theorem closed_disk : ((w.close id).eraseStream id).disk = (w.flush id).disk := by
  have hopen : (w.close id).openOn id = none := by simp [openOn, close]
  rw [eraseStream_disk, flush, drain_of_openOn_none hopen, close_disk]

/-- After `close` and `erase_stream` the disk holds the settled bytes. -/
theorem closed_content : ((w.close id).eraseStream id).disk.content = w.settled id := by
  rw [closed_disk, flush_content]

/-- Closing and erasing a stream leaves those of other users alone. -/
theorem closed_streams_of_ne {id' : Bytes} (hne : id' ≠ id) :
    ((w.close id).eraseStream id).streams id' = w.streams id' := by
  rw [eraseStream_streams_of_ne _ _ hne]
  simp [close, Function.update_of_ne hne, flush_streams_of_ne w id hne]

/-- Closing and erasing a stream makes and removes no entry of the tree. -/
@[simp] theorem closed_node : ((w.close id).eraseStream id).disk.node = w.disk.node := by
  rw [closed_disk, flush_node]

/-- Closing and erasing a stream takes no inode. -/
@[simp] theorem closed_next : ((w.close id).eraseStream id).disk.next = w.disk.next := by
  rw [closed_disk, flush_next]

/-- Closing and erasing a stream is none of the recorded calls. -/
@[simp] theorem closed_calls : ((w.close id).eraseStream id).calls = w.calls := by
  rw [eraseStream_calls, close_calls]

/-! ### Calls on the file system -/

/-- Making directories only adds to the tree, whether a call fails or not. -/
theorem createDirectories_extends (p : Path) :
    w.disk.Extends (w.createDirectories env p).1.disk := by
  unfold createDirectories
  split
  · exact .refl _
  · exact w.disk.createDirectories_extends p

/-- Opening a file for appending only adds to the tree. -/
theorem openStream_extends (p : Path) : w.disk.Extends (w.openStream env p).1.disk := by
  unfold openStream
  split
  · exact .refl _
  · exact w.disk.openAppend_extends p

/-- One call, whatever it finds. -/
@[simp] theorem createDirectories_calls (p : Path) :
    (w.createDirectories env p).1.calls = .createDirectories p :: w.calls := by
  unfold createDirectories
  split <;> rfl

/-- Making directories leaves the stream table alone. -/
@[simp] theorem createDirectories_streams (p : Path) :
    (w.createDirectories env p).1.streams = w.streams := by
  unfold createDirectories
  split <;> rfl

/-- Making directories changes no file. -/
@[simp] theorem createDirectories_content (p : Path) :
    (w.createDirectories env p).1.disk.content = w.disk.content := by
  unfold createDirectories
  split
  · rfl
  · simp

/-- The call only adds directories. -/
theorem createDirectories_node (p : Path) (k : Loc) :
    (w.createDirectories env p).1.disk.node k = w.disk.node k ∨
      (w.disk.node k = none ∧ (w.createDirectories env p).1.disk.node k = some .dir) := by
  unfold createDirectories
  split
  · exact Or.inl rfl
  · exact w.disk.createDirectories_node p k

variable {env w} in
/-- A call that succeeds leaves a directory. -/
theorem createDirectories_dir {p : Path} (h : (w.createDirectories env p).2 = true) :
    (w.createDirectories env p).1.disk.node (denote p) = some .dir := by
  unfold createDirectories at h ⊢
  split
  · rename_i hf
    rw [if_pos hf] at h
    exact absurd h (by simp)
  · rename_i hf
    rw [if_neg hf] at h
    exact Disk.createDirectories_dir h

/-- One call, whatever it finds. -/
@[simp] theorem openStream_calls (p : Path) :
    (w.openStream env p).1.calls = .openStream p :: w.calls := by
  unfold openStream
  split <;> rfl

/-- Opening alone does not enter the stream into the table. -/
@[simp] theorem openStream_streams (p : Path) : (w.openStream env p).1.streams = w.streams := by
  unfold openStream
  split <;> rfl

/-- The three ways an open can end: it fails, it finds a file, or it makes one. -/
theorem openStream_cases (p : Path) :
    ((w.openStream env p).1.disk = w.disk ∧ (w.openStream env p).2 = none) ∨
    (∃ l i, w.disk.locate p = some l ∧ w.disk.node l = some (.file i) ∧
      (w.openStream env p).1.disk = w.disk ∧ (w.openStream env p).2 = some i) ∨
    ∃ l, w.disk.locate p = some l ∧ w.disk.Free l ∧
      (w.openStream env p).1.disk = w.disk.addFile l ∧
      (w.openStream env p).2 = some w.disk.next := by
  unfold openStream
  split
  · exact Or.inl ⟨rfl, rfl⟩
  · rcases w.disk.openAppend_cases p with h | ⟨l, i, hl, hn, h⟩ | ⟨l, hl, hfree, h⟩
    · exact Or.inl ⟨by simp [h], by simp [h]⟩
    · exact Or.inr (Or.inl ⟨l, i, hl, hn, by simp [h], by simp [h]⟩)
    · exact Or.inr (Or.inr ⟨l, hl, hfree, by simp [h], by simp [h]⟩)

variable {env w} in
/-- The path of a file that was opened names it. -/
theorem openStream_status {p : Path} {i : Nat} (h : (w.openStream env p).2 = some i) :
    (w.openStream env p).1.disk.status p = some (.file i) := by
  rcases w.openStream_cases env p with ⟨-, hnone⟩ | ⟨l, j, hl, hn, hdisk, hj⟩ |
    ⟨l, hl, hfree, hdisk, hnext⟩
  · rw [hnone] at h
    exact absurd h (by simp)
  · rw [hj] at h
    cases h
    rw [hdisk, Disk.status_eq_some]
    exact ⟨l, hl, hn⟩
  · rw [hnext] at h
    cases h
    rw [hdisk]
    exact Disk.status_addFile hl hfree

/-- A file that was there before an open is named by the same path after it. -/
theorem openStream_status_of_lt (p : Path) {i : Nat} (hi : i < w.disk.next) :
    (w.openStream env p).1.disk.status p = some (.file i) ↔
      w.disk.status p = some (.file i) := by
  rcases w.openStream_cases env p with ⟨hdisk, -⟩ | ⟨l, j, -, -, hdisk, -⟩ |
    ⟨l, hl, hfree, hdisk, -⟩
  · rw [hdisk]
  · rw [hdisk]
  · -- The path named nothing, and now names the new file.
    have hnone : w.disk.status p = none := by
      rw [Disk.status, hl, Option.bind_some, hfree.2.1]
    rw [hdisk, Disk.status_addFile hl hfree, hnone]
    simp only [Option.some.injEq, Node.file.injEq, reduceCtorEq, iff_false]
    omega

/-- `get_stream` opens the file even where it returns the stream it has. -/
theorem getStream_disk (p : Path) :
    (w.getStream env id p).1.disk = (w.openStream env p).1.disk := by
  unfold getStream
  split <;> rfl

/-- `get_stream` only adds to the tree. -/
theorem getStream_extends (p : Path) : w.disk.Extends (w.getStream env id p).1.disk := by
  rw [getStream_disk]
  exact w.openStream_extends env p

/-- `get_stream` makes one call, whether it keeps the new stream or not. -/
@[simp] theorem getStream_calls (p : Path) :
    (w.getStream env id p).1.calls = .openStream p :: w.calls := by
  rw [← openStream_calls env w p]
  unfold getStream
  split <;> rfl

/-- The table after the call: the user's stream stays, and the new one goes in only when
the user has none. -/
theorem getStream_cases (p : Path) :
    (w.streams id ≠ none ∧ (w.getStream env id p).2 = false ∧
      (w.getStream env id p).1.streams = w.streams) ∨
    (w.streams id = none ∧ (w.getStream env id p).2 = true ∧
      (w.getStream env id p).1.streams =
        Function.update w.streams id (some ⟨(w.openStream env p).2, []⟩)) := by
  unfold getStream
  split
  · rename_i s hs
    rw [openStream_streams] at hs
    exact Or.inl ⟨by simp [hs], rfl, openStream_streams env w p⟩
  · rename_i hs
    rw [openStream_streams] at hs
    exact Or.inr ⟨hs, rfl, by rw [withStream_streams, openStream_streams]⟩

/-- `get_stream` leaves the streams of other users alone. -/
theorem getStream_streams_of_ne (p : Path) {id' : Bytes} (hne : id' ≠ id) :
    (w.getStream env id p).1.streams id' = w.streams id' := by
  rcases w.getStream_cases env id p with ⟨-, -, h⟩ | ⟨-, -, h⟩
  · rw [h]
  · rw [h, Function.update_of_ne hne]

/-- One call, whatever it finds. -/
@[simp] theorem remove_calls (p : Path) : (w.remove env p).1.calls = .remove p :: w.calls := by
  unfold remove
  split <;> rfl

/-- A removal leaves the stream table alone. -/
@[simp] theorem remove_streams (p : Path) : (w.remove env p).1.streams = w.streams := by
  unfold remove
  split <;> rfl

/-- A removal takes an entry away, and no inode changes. -/
@[simp] theorem remove_content (p : Path) :
    (w.remove env p).1.disk.content = w.disk.content := by
  unfold remove
  split
  · rfl
  · simp

/-- A call leaves the tree alone or takes one entry out of which nothing hangs. -/
theorem remove_cases (p : Path) :
    (w.remove env p).1.disk = w.disk ∨
    ∃ l, w.disk.locate p = some l ∧ l ≠ [] ∧ w.disk.node l ≠ none ∧ w.disk.children l = [] ∧
      (w.remove env p).1.disk = w.disk.detach l ∧ (w.remove env p).2 = true := by
  unfold remove
  split
  · exact Or.inl rfl
  · rcases w.disk.remove_cases p with h | ⟨l, hl, hne, hn, hchildren, h⟩
    · exact Or.inl h
    · exact Or.inr ⟨l, hl, hne, hn, hchildren, by simp [h], by simp [h]⟩

/-- One call, whatever it finds. -/
@[simp] theorem rename_calls (p q : Path) :
    (w.rename env p q).1.calls = .rename p q :: w.calls := by
  unfold rename
  split <;> rfl

/-- A renaming leaves the stream table alone. -/
@[simp] theorem rename_streams (p q : Path) : (w.rename env p q).1.streams = w.streams := by
  unfold rename
  split <;> rfl

/-- A renaming moves entries, and no inode changes. -/
@[simp] theorem rename_content (p q : Path) :
    (w.rename env p q).1.disk.content = w.disk.content := by
  unfold rename
  split
  · rfl
  · simp

/-- Hashing a file changes nothing but the list of calls. -/
theorem md5Hash_fst (p q : Path) : (w.md5Hash env p q).1 = w.record (.openRead p) := rfl

/-- The digest is that of a file, or that of the zero bytes which stand for a directory, or the
constructor of the vector throws. -/
theorem md5Hash_cases (p q : Path) :
    (w.md5Hash env p q).2 = .error .otherException ∨
    (∃ bytes, w.disk.read p = some bytes ∧
      (w.md5Hash env p q).2 = .ok (md5HashString env (q ++ bytes))) ∨
    (w.disk.status p = some .dir ∧ ∃ n, env.directoryLength w.calls p = some n ∧
      (w.md5Hash env p q).2 = .ok (md5HashString env (q ++ List.replicate n 0))) := by
  unfold md5Hash
  dsimp only
  split
  · exact Or.inl rfl
  · split
    · rename_i i h
      exact Or.inr (Or.inl ⟨_, Disk.read_eq_some.mpr ⟨i, h, rfl⟩, rfl⟩)
    · rename_i h
      split
      · rename_i n hn
        exact Or.inr (Or.inr ⟨h, n, hn, rfl⟩)
      · exact Or.inl rfl
    · exact Or.inl rfl

/-- Whatever stands at the path, the exception is not the one that the handlers catch. -/
theorem md5Hash_result (p q : Path) :
    (w.md5Hash env p q).2 = .error .otherException ∨
      ∃ found, (w.md5Hash env p q).2 = .ok found := by
  rcases w.md5Hash_cases env p q with h | ⟨bytes, -, h⟩ | ⟨-, n, -, h⟩
  · exact Or.inl h
  · exact Or.inr ⟨_, h⟩
  · exact Or.inr ⟨_, h⟩

variable {env w} in
/-- The digest of a file that is there. -/
theorem md5Hash_of_read {p q : Path} {bytes : Bytes} (h : w.disk.read p = some bytes) :
    (w.md5Hash env p q).2 =
      if env.fails w.calls (.openRead p) then .error .otherException
      else .ok (md5HashString env (q ++ bytes)) := by
  obtain ⟨i, hi, rfl⟩ := Disk.read_eq_some.mp h
  simp [md5Hash, hi]

variable {env w} in
/-- The digest of a directory that shows a length. -/
theorem md5Hash_of_dir {p q : Path} {n : Nat} (h : w.disk.status p = some .dir)
    (hn : env.directoryLength w.calls p = some n) :
    (w.md5Hash env p q).2 =
      if env.fails w.calls (.openRead p) then .error .otherException
      else .ok (md5HashString env (q ++ List.replicate n 0)) := by
  simp [md5Hash, h, hn]

variable {env w} in
/-- A file that is there goes, unless the call fails. -/
theorem remove_of_file {p : Path} {l : Loc} {i : Nat} (hl : w.disk.locate p = some l)
    (hi : w.disk.node l = some (.file i)) :
    (w.remove env p).2 = !env.fails w.calls (.remove p) ∧
      (w.remove env p).1.disk.node =
        if env.fails w.calls (.remove p) then w.disk.node
        else Function.update w.disk.node l none := by
  unfold remove
  split
  · rename_i hf
    simp [hf]
  · rename_i hf
    simp [hf, Disk.remove_file hl hi, ← Disk.remove_file_node hl hi]

variable {env w} in
/-- When the call succeeds, the file goes and nothing else does. -/
theorem remove_node {p : Path} {l : Loc} {i : Nat} (hl : w.disk.locate p = some l)
    (hi : w.disk.node l = some (.file i)) (h : (w.remove env p).2 = true) :
    (w.remove env p).1.disk.node = Function.update w.disk.node l none := by
  have hfile := @remove_of_file env w p l i hl hi
  rw [hfile.1, Bool.not_eq_true'] at h
  rw [hfile.2, if_neg (by simp [h])]

variable {env w} in
/-- When the call fails, everything stays where it is. -/
theorem remove_node_of_failed {p : Path} {l : Loc} {i : Nat} (hl : w.disk.locate p = some l)
    (hi : w.disk.node l = some (.file i)) (h : (w.remove env p).2 = false) :
    (w.remove env p).1.disk.node = w.disk.node := by
  have hfile := @remove_of_file env w p l i hl hi
  rw [hfile.1, Bool.not_eq_false'] at h
  rw [hfile.2, if_pos h]

end World

end RemoteBackup
