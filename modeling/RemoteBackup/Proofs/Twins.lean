import RemoteBackup.Lib.Subtree
import RemoteBackup.Proofs.SyncedView

/-!
# `RemoteBackup.Proofs.Twins`: two worlds that look the same to a user

Two worlds are twins for a user when they look the same from the user's directory: the trees
agree below it, the user's stream is the same up to the inode, and so are the calls made on
paths below it.

* `Twin.createDirectories` to `Twin.eraseStream`: an operation of the user does the same to
  twins.
* `handleRequest_twin`: so does a request, and it is answered alike.
* `Unseen.twin`: a change that the user does not see leaves twins twins.
-/

set_option autoImplicit false

namespace RemoteBackup

open Lib

/-- The paths that a call names. -/
def FsCall.named : FsCall → List Path
  | .createDirectories p => [p]
  | .openStream p => [p]
  | .openRead p => [p]
  | .remove p => [p]
  | .rename p q => [p, q]
  | .isEmpty p => [p]
  | .iterate p => [p]
  | .advance p => [p]
  | .isRegularFile p => [p]

namespace Proofs

open Relation

/-- The call names a place from `b` on. -/
def Near (b : Loc) (call : FsCall) : Prop := ∃ p ∈ call.named, b <+: denote p

/-- Whether a call is near the directory is read off the paths that it names. -/
instance (b : Loc) (call : FsCall) : Decidable (Near b call) := by
  unfold Near
  infer_instance

/-- The lengths that the directories below `b` show depend on what happened near `b`, whatever the
other calls were. -/
def LocalLengths (env : Env) (b : Loc) : Prop :=
  ∀ calls calls' p, b <+: denote p → calls'.filter (Near b ·) = calls.filter (Near b ·) →
    env.directoryLength calls' p = env.directoryLength calls p

/-- The same of the calls that fail there. -/
structure LocalFaults (env : Env) (b : Loc) : Prop where
  fails : ∀ calls calls' call, Near b call →
    calls'.filter (Near b ·) = calls.filter (Near b ·) →
      env.fails calls' call = env.fails calls call
  lengths : LocalLengths env b

/-- Where no call fails, the lengths are all there is. -/
theorem localFaults_of_noFaults {env : Env} (h : env.NoFaults) {b : Loc}
    (hlengths : LocalLengths env b) : LocalFaults env b where
  fails calls calls' call _ _ := (h calls' call).trans (h calls call).symm
  lengths := hlengths

/-! ### Twins -/

/-- The streams are on the same file below `b`, and hold the same bytes. -/
def SameStream (b : Loc) (d d' : Disk) (s s' : Stream) : Prop :=
  Option.Rel (Disk.SameFile b d d') s.inode s'.inode ∧ s'.pending = s.pending

/-- Two worlds that look the same to user `id`, whose directory is `b`. -/
structure Twin (b : Loc) (id : Bytes) (w w' : World) : Prop where
  disk : Disk.Agree b w.disk w'.disk
  stream : Option.Rel (SameStream b w.disk w'.disk) (w.streams id) (w'.streams id)
  calls : w'.calls.filter (Near b ·) = w.calls.filter (Near b ·)

/-- A change of the world that user `id` does not see. -/
structure Unseen (b : Loc) (id : Bytes) (w w' : World) : Prop where
  disk : Disk.Untouched b w.disk w'.disk
  stream : w'.streams id = w.streams id
  calls : w'.calls.filter (Near b ·) = w.calls.filter (Near b ·)

variable {env : Env} {b : Loc} {id : Bytes} {w w' : World}

/-- Values that are related in one way are related in any weaker one. -/
theorem Option.Rel.mono {α β : Type} {r r' : α → β → Prop} {x : Option α} {y : Option β}
    (h : Option.Rel r x y) (hr : ∀ a c, r a c → r' a c) : Option.Rel r' x y := by
  cases h with
  | some hac => exact .some (hr _ _ hac)
  | none => exact .none

/-- Nothing happened, so nothing was seen. -/
theorem Unseen.refl (b : Loc) (id : Bytes) (w : World) : Unseen b id w w :=
  ⟨.refl b _, rfl, rfl⟩

/-- Two steps that are not seen are not seen together. -/
theorem Unseen.trans {w'' : World} (h : Unseen b id w w') (h' : Unseen b id w' w'') :
    Unseen b id w w'' :=
  ⟨h.disk.trans h'.disk, h'.stream.trans h.stream, h'.calls.trans h.calls⟩

/-- A world is its own twin. -/
theorem Twin.refl (b : Loc) (id : Bytes) (w : World) : Twin b id w w := by
  refine ⟨.refl b _, ?_, rfl⟩
  rcases w.streams id with _ | ⟨_ | i, p⟩
  · exact .none
  · exact .some ⟨.none, rfl⟩
  · exact .some ⟨.some fun _ _ => Iff.rfl, rfl⟩

/-- A twin is still a twin after a change that the user does not see. -/
theorem Unseen.twin {w1 : World} (h : Unseen b id w w1) (htwin : Twin b id w w') :
    Twin b id w1 w' where
  disk := h.disk.agree htwin.disk
  stream := by
    rw [h.stream]
    exact Option.Rel.mono htwin.stream fun s s' hs =>
      ⟨Option.Rel.mono hs.1 fun _ _ hsame => h.disk.sameFile hsame, hs.2⟩
  calls := htwin.calls.trans h.calls.symm

/-- The faults of twins are the same near the directory. -/
theorem Twin.fails (h : Twin b id w w') (hlocal : LocalFaults env b) {call : FsCall}
    (hcall : Near b call) : env.fails w'.calls call = env.fails w.calls call :=
  hlocal.fails _ _ call hcall h.calls

/-- And so are the lengths of the directories below it. -/
theorem Twin.lengths (h : Twin b id w w') (hlocal : LocalFaults env b) {l : Loc} (hl : b <+: l) :
    env.directoryLength w'.calls (toPath l) = env.directoryLength w.calls (toPath l) :=
  hlocal.lengths _ _ _ (by rwa [denote_toPath]) h.calls

/-- A call that names a place below the directory is near it. -/
theorem near_toPath {l : Loc} (hl : b <+: l) {call : FsCall} (hcall : toPath l ∈ call.named) :
    Near b call := ⟨toPath l, hcall, by rwa [denote_toPath]⟩

/-! ### What the user does -/

/-- A call that leaves twins, and returns the same in both. -/
def Alike {α : Type} (b : Loc) (id : Bytes) (r r' : World × α) : Prop :=
  Twin b id r.1 r'.1 ∧ r'.2 = r.2

/-- Two outcomes that are alike are twins with one answer. -/
theorem Alike.exists {α : Type} {r r' : World × α} (h : Alike b id r r') :
    ∃ w w' a, r = (w, a) ∧ r' = (w', a) ∧ Twin b id w w' :=
  ⟨r.1, r'.1, r.2, rfl, Prod.ext rfl h.2, h.1⟩

/-- The same call, noted on both sides. -/
theorem Twin.record (h : Twin b id w w') (call : FsCall) :
    Twin b id (w.record call) (w'.record call) where
  disk := h.disk
  stream := h.stream
  calls := by
    rw [World.record_calls, World.record_calls, List.filter_cons, List.filter_cons, h.calls]

/-- A call that changes the two trees alike. -/
theorem Twin.withDisk (h : Twin b id w w') {e e' : Disk} (hnext : w.disk.next ≤ e.next)
    (hnext' : w'.disk.next ≤ e'.next) (hdisk : Disk.Parallel b w.disk w'.disk e e') :
    Twin b id (w.withDisk e hnext) (w'.withDisk e' hnext') where
  disk := hdisk.agree
  stream := by
    have hfresh := w.streams_fresh id
    have hfresh' := w'.streams_fresh id
    show Option.Rel (SameStream b e e') (w.streams id) (w'.streams id)
    have hstream := h.stream
    generalize w.streams id = x at hstream hfresh ⊢
    generalize w'.streams id = y at hstream hfresh' ⊢
    cases hstream with
    | none => exact .none
    | @some s s' hs =>
        obtain ⟨hi, hp⟩ := hs
        refine .some ⟨?_, hp⟩
        obtain ⟨inode, pending⟩ := s
        obtain ⟨inode', pending'⟩ := s'
        -- The inodes are in use, so they are not those of new files.
        cases hi with
        | none => exact .none
        | some hsame =>
            exact .some (hdisk.sameFile _ _ hsame (hfresh _ _ rfl rfl) (hfresh' _ _ rfl rfl))
  calls := h.calls

/-- `create_directories` in the user's directory. -/
theorem Twin.createDirectories (h : Twin b id w w') (hlocal : LocalFaults env b) {l : Loc}
    (hne : l ≠ []) (hl : b <+: l) :
    Alike b id (w.createDirectories env (toPath l)) (w'.createDirectories env (toPath l)) := by
  unfold World.createDirectories
  rw [h.fails hlocal (near_toPath hl (by simp [FsCall.named]))]
  split
  · exact ⟨h.record _, rfl⟩
  · obtain ⟨hdisk, hflag⟩ := h.disk.createDirectories hne hl
    exact ⟨(h.record _).withDisk (Nat.le_of_eq (w.disk.createDirectories_next _).symm)
      (Nat.le_of_eq (w'.disk.createDirectories_next _).symm) hdisk, hflag⟩

/-- `remove` in the user's directory. -/
theorem Twin.remove (h : Twin b id w w') (hlocal : LocalFaults env b) {l : Loc}
    (hl : Disk.Under b l) :
    Alike b id (w.remove env (toPath l)) (w'.remove env (toPath l)) := by
  unfold World.remove
  rw [h.fails hlocal (near_toPath hl.below (by simp [FsCall.named]))]
  split
  · exact ⟨h.record _, rfl⟩
  · obtain ⟨hdisk, hflag⟩ := h.disk.remove hl
    exact ⟨(h.record _).withDisk (Nat.le_of_eq (w.disk.remove_next _).symm)
      (Nat.le_of_eq (w'.disk.remove_next _).symm) hdisk, hflag⟩

/-- `rename` in the user's directory. -/
theorem Twin.rename (h : Twin b id w w') (hlocal : LocalFaults env b) {src dst : Loc}
    (hsrc : Disk.Under b src) (hdst : Disk.Under b dst) :
    Alike b id (w.rename env (toPath src) (toPath dst))
      (w'.rename env (toPath src) (toPath dst)) := by
  unfold World.rename
  rw [h.fails hlocal (near_toPath hsrc.below (by simp [FsCall.named]))]
  split
  · exact ⟨h.record _, rfl⟩
  · obtain ⟨hdisk, hflag⟩ := h.disk.rename hsrc hdst
    exact ⟨(h.record _).withDisk (Nat.le_of_eq (w.disk.rename_next _ _).symm)
      (Nat.le_of_eq (w'.disk.rename_next _ _).symm) hdisk, hflag⟩

/-- `is_empty` in the user's directory. -/
theorem Twin.isEmpty (h : Twin b id w w') (hlocal : LocalFaults env b) {l : Loc}
    (hl : Disk.Under b l) :
    Alike b id (w.isEmpty env (toPath l)) (w'.isEmpty env (toPath l)) := by
  refine ⟨h.record _, ?_⟩
  simp only [World.isEmpty]
  rw [h.fails hlocal (near_toPath hl.below (by simp [FsCall.named])), h.disk.isEmpty hl]

/-- The digest of a path in the user's directory, a file or a directory that shows a length. -/
theorem Twin.md5Hash (h : Twin b id w w') (hlocal : LocalFaults env b) {l : Loc} (hl : b <+: l)
    (relativePath : Path) :
    Alike b id (w.md5Hash env (toPath l) relativePath)
      (w'.md5Hash env (toPath l) relativePath) := by
  refine ⟨h.record _, ?_⟩
  simp only [World.md5Hash]
  rw [h.fails hlocal (near_toPath hl (by simp [FsCall.named])), h.lengths hlocal hl,
    Disk.status_toPath, Disk.status_toPath]
  rcases hnode : w.disk.node l with _ | _ | i
  · rw [(h.disk.none_iff hl).mpr hnode]
  · rw [(h.disk.dir_iff hl).mpr hnode]
  · obtain ⟨i', hi', hcontent, -⟩ := h.disk.file hl hnode
    simp only [hi', hcontent]

/-- Opening a file in the user's directory. The inodes may differ, the file is the same. -/
theorem Twin.openStream (h : Twin b id w w') (hlocal : LocalFaults env b) {l : Loc}
    (hl : Disk.Under b l) :
    Twin b id (w.openStream env (toPath l)).1 (w'.openStream env (toPath l)).1 ∧
      Option.Rel (Disk.SameFile b (w.openStream env (toPath l)).1.disk
        (w'.openStream env (toPath l)).1.disk) (w.openStream env (toPath l)).2
        (w'.openStream env (toPath l)).2 := by
  unfold World.openStream
  rw [h.fails hlocal (near_toPath hl.below (by simp [FsCall.named]))]
  split
  · exact ⟨h.record _, .none⟩
  · obtain ⟨hdisk, hinode⟩ := h.disk.openAppend hl
    exact ⟨(h.record _).withDisk (w.disk.openAppend_next_le _) (w'.disk.openAppend_next_le _)
      hdisk, hinode⟩

/-- How the user's streams can be: there is none, both are dead, or both are open on the same
file. -/
theorem Twin.stream_cases (h : Twin b id w w') :
    (w.streams id = none ∧ w'.streams id = none) ∨
    (∃ p, w.streams id = some ⟨none, p⟩ ∧ w'.streams id = some ⟨none, p⟩) ∨
    ∃ i i' p, w.streams id = some ⟨some i, p⟩ ∧ w'.streams id = some ⟨some i', p⟩ ∧
      Disk.SameFile b w.disk w'.disk i i' := by
  have hstream := h.stream
  generalize w.streams id = x at hstream
  generalize w'.streams id = y at hstream
  cases hstream with
  | none => exact Or.inl ⟨rfl, rfl⟩
  | @some s s' hs =>
      obtain ⟨hi, hp⟩ := hs
      obtain ⟨inode, pending⟩ := s
      obtain ⟨inode', pending'⟩ := s'
      obtain rfl : pending' = pending := hp
      cases hi with
      | none => exact Or.inr (Or.inl ⟨_, rfl, rfl⟩)
      | some hsame => exact Or.inr (Or.inr ⟨_, _, _, rfl, rfl, hsame⟩)

/-- Twins have no order. -/
theorem Twin.symm (h : Twin b id w w') : Twin b id w' w := by
  refine ⟨h.disk.symm, ?_, h.calls.symm⟩
  rcases h.stream_cases with ⟨hs, hs'⟩ | ⟨p, hs, hs'⟩ | ⟨i, i', p, hs, hs', hsame⟩
  · rw [hs, hs']
    exact .none
  · rw [hs, hs']
    exact .some ⟨.none, rfl⟩
  · rw [hs, hs']
    exact .some ⟨.some hsame.symm, rfl⟩

/-- `get_stream` for a file in the user's directory. -/
theorem Twin.getStream (h : Twin b id w w') (hlocal : LocalFaults env b) {l : Loc}
    (hl : Disk.Under b l) :
    Alike b id (w.getStream env id (toPath l)) (w'.getStream env id (toPath l)) := by
  obtain ⟨hopen, hinode⟩ := h.openStream hlocal hl
  have hstream := hopen.stream
  rw [World.openStream_streams, World.openStream_streams] at hstream
  have hnone : w'.streams id = none ↔ w.streams id = none := by
    generalize w.streams id = x at hstream
    generalize w'.streams id = y at hstream
    cases hstream <;> simp
  have hcalls : ∀ w : World,
      (w.getStream env id (toPath l)).1.calls = (w.openStream env (toPath l)).1.calls := by
    intro w
    rw [World.getStream_calls, World.openStream_calls]
  suffices hgot : Option.Rel (SameStream b (w.openStream env (toPath l)).1.disk
      (w'.openStream env (toPath l)).1.disk) ((w.getStream env id (toPath l)).1.streams id)
      ((w'.getStream env id (toPath l)).1.streams id) ∧
      (w'.getStream env id (toPath l)).2 = (w.getStream env id (toPath l)).2 by
    refine ⟨⟨?_, ?_, ?_⟩, hgot.2⟩
    · rw [World.getStream_disk, World.getStream_disk]
      exact hopen.disk
    · rw [World.getStream_disk, World.getStream_disk]
      exact hgot.1
    · rw [hcalls, hcalls]
      exact hopen.calls
  -- Both users have a stream, or both get the new one.
  rcases w.getStream_cases env id (toPath l) with ⟨hs, hfirst, hgot⟩ | ⟨hs, hfirst, hgot⟩
  · rcases w'.getStream_cases env id (toPath l) with ⟨-, hfirst', hgot'⟩ | ⟨hs', -⟩
    · rw [hfirst, hfirst', hgot, hgot']
      exact ⟨hstream, rfl⟩
    · exact absurd (hnone.mp hs') hs
  · rcases w'.getStream_cases env id (toPath l) with ⟨hs', -⟩ | ⟨-, hfirst', hgot'⟩
    · exact absurd (hnone.mpr hs) hs'
    · rw [hfirst, hfirst', hgot, hgot', Function.update_self, Function.update_self]
      exact ⟨.some ⟨hinode, rfl⟩, rfl⟩

/-- The user's stream can be used in both worlds or in neither. -/
theorem Twin.usable (h : Twin b id w w') : w'.usable id = w.usable id := by
  unfold World.usable
  rcases h.stream_cases with ⟨hs, hs'⟩ | ⟨p, hs, hs'⟩ | ⟨i, i', p, hs, hs', -⟩
  all_goals simp [hs, hs']

/-- The buffers of the user's streams hold the same. -/
theorem Twin.pendingOf (h : Twin b id w w') : w'.pendingOf id = w.pendingOf id := by
  unfold World.pendingOf
  rcases h.stream_cases with ⟨hs, hs'⟩ | ⟨p, hs, hs'⟩ | ⟨i, i', p, hs, hs', -⟩
  all_goals rw [hs, hs']

/-- A stream in the table is open on its inode. -/
theorem openOn_of_streams {s : Stream} (h : w.streams id = some s) : w.openOn id = s.inode := by
  rw [World.openOn, h]
  rfl

/-- Streams on the same file, with the same bytes in their buffers now. -/
theorem Twin.refilled (h : Twin b id w w') {x x' : World} {i i' : Nat} {p : Bytes}
    (hdisk : Disk.Agree b x.disk x'.disk) (hsame : Disk.SameFile b x.disk x'.disk i i')
    (hstream : x.streams id = some ⟨some i, p⟩) (hstream' : x'.streams id = some ⟨some i', p⟩)
    (hcalls : x.calls = w.calls) (hcalls' : x'.calls = w'.calls) : Twin b id x x' where
  disk := hdisk
  stream := by
    rw [hstream, hstream']
    exact .some ⟨.some hsame, rfl⟩
  calls := by
    rw [hcalls, hcalls']
    exact h.calls

/-- The same part of the buffer is written out on both sides. -/
theorem Twin.drain (h : Twin b id w w') (k : Nat) :
    Twin b id (w.drain id k) (w'.drain id k) := by
  rcases h.stream_cases with ⟨hs, hs'⟩ | ⟨p, hs, hs'⟩ | ⟨i, i', p, hs, hs', hsame⟩
  · rw [World.drain_of_openOn_none (noStream_openOn hs),
      World.drain_of_openOn_none (noStream_openOn hs')]
    exact h
  · rw [World.drain_of_openOn_none (openOn_of_streams hs),
      World.drain_of_openOn_none (openOn_of_streams hs')]
    exact h
  · obtain ⟨hdisk, hstreams, hcalls⟩ := World.drain_of_streams hs k
    obtain ⟨hdisk', hstreams', hcalls'⟩ := World.drain_of_streams hs' k
    refine h.refilled ?_ ?_ (hstreams ▸ Function.update_self _ _ _)
      (hstreams' ▸ Function.update_self _ _ _) hcalls hcalls'
    · rw [hdisk, hdisk']
      exact h.disk.appendTo hsame _
    · rw [hdisk, hdisk']
      exact hsame

/-- The same bytes are buffered on both sides. -/
theorem Twin.buffer (h : Twin b id w w') (bytes : Bytes) :
    Twin b id (w.buffer id bytes) (w'.buffer id bytes) := by
  rcases h.stream_cases with ⟨hs, hs'⟩ | ⟨p, hs, hs'⟩ | ⟨i, i', p, hs, hs', hsame⟩
  · rw [World.buffer_of_openOn_none (noStream_openOn hs),
      World.buffer_of_openOn_none (noStream_openOn hs')]
    exact h
  · rw [World.buffer_of_openOn_none (openOn_of_streams hs),
      World.buffer_of_openOn_none (openOn_of_streams hs')]
    exact h
  · obtain ⟨hdisk, hstreams, hcalls⟩ := World.buffer_of_streams hs bytes
    obtain ⟨hdisk', hstreams', hcalls'⟩ := World.buffer_of_streams hs' bytes
    refine h.refilled ?_ ?_ (hstreams ▸ Function.update_self _ _ _)
      (hstreams' ▸ Function.update_self _ _ _) hcalls hcalls'
    · rw [hdisk, hdisk']
      exact h.disk
    · rw [hdisk, hdisk']
      exact hsame

/-- The same write to the user's stream. -/
theorem Twin.write (h : Twin b id w w') (env : Env) (bytes : Bytes) :
    Twin b id (w.write env id bytes) (w'.write env id bytes) := by
  unfold World.write
  dsimp only
  rw [(h.buffer bytes).pendingOf]
  exact (h.buffer bytes).drain _

/-- The user's stream is flushed. -/
theorem Twin.flush (h : Twin b id w w') : Twin b id (w.flush id) (w'.flush id) := by
  unfold World.flush
  rw [h.pendingOf]
  exact h.drain _

/-- The user's stream is closed and erased. -/
theorem Twin.closed (h : Twin b id w w') : Twin b id (closed w id) (closed w' id) where
  disk := by
    rw [Proofs.closed, Proofs.closed, World.closed_disk, World.closed_disk]
    exact h.flush.disk
  stream := by
    rw [closed_streams_self, closed_streams_self]
    exact .none
  calls := by
    rw [Proofs.closed, Proofs.closed, World.closed_calls, World.closed_calls]
    exact h.calls

/-- The user's stream is erased from the table. -/
theorem Twin.eraseStream (h : Twin b id w w') :
    Twin b id (w.eraseStream id) (w'.eraseStream id) where
  disk := h.flush.disk
  stream := by
    rw [World.eraseStream_streams_self, World.eraseStream_streams_self]
    exact .none
  calls := by
    rw [World.eraseStream_calls, World.eraseStream_calls]
    exact h.calls

/-! ### The user's requests -/

/-- Two outcomes that are the same to the user: twin worlds, and one session and one result. -/
structure SameEnd (b : Loc) (id : Bytes) (o o' : Outcome) : Prop where
  world : Twin b id o.world o'.world
  user : o'.user = o.user
  result : o'.result = o.result

/-- The same answer on both sides. -/
theorem Twin.answer (h : Twin b id w w') (u : User) (replies : MessageQueue) (status : TlvType)
    (err : ErrType) :
    SameEnd b id (answer w u replies status err) (answer w' u replies status err) :=
  ⟨h, rfl, rfl⟩

/-- The process stops in the same way on both sides. -/
theorem Twin.halted (h : Twin b id w w') (u : User) (e : Halt) :
    SameEnd b id (halted w u e) (halted w' u e) := ⟨h, rfl, rfl⟩

/-- The same check comes first in both worlds. -/
theorem Twin.attempt {α : Type} (h : Twin b id w w') (u : User) (x : Except Halt α)
    {k k' : α → Outcome} (hk : ∀ a, x = .ok a → SameEnd b id (k a) (k' a)) :
    SameEnd b id (attempt w u x k) (attempt w' u x k') := by
  cases x with
  | ok a => exact hk a rfl
  | error e => exact h.halted u e

/-- A session of the user, whose directory is `b`. -/
structure SessionOf (b : Loc) (id : Bytes) (u : User) (dir : Dir) : Prop where
  id : u.id = id
  holds : u.dir = some dir
  path : dir.path = toPath b

/-- A name behind a place below the directory leads to a place under it. -/
theorem under_concat {l : Loc} (hl : b <+: l) (k : Name) : Disk.Under b (l ++ [k]) where
  ne_nil := by simp
  parent := by rwa [List.dropLast_concat]

/-- The file that a plain path names for a session. -/
theorem SessionOf.plain {u : User} {dir : Dir} (h : SessionOf b id u dir) (hb : b ≠ [])
    {path : Path} (hp : PlainPath path) :
    ∃ l k, append dir.path path = toPath (l ++ [k]) ∧ b <+: l := by
  obtain ⟨ns, hns, hp⟩ := hp
  have happend : append dir.path path = toPath (b ++ ns) := by
    rw [h.path]
    exact append_plain hb hns hp
  obtain ⟨ns, k, rfl⟩ := ns.eq_nil_or_concat'.resolve_left hns
  refine ⟨b ++ ns, k, ?_, List.prefix_append b ns⟩
  rw [happend, List.append_assoc]

/-- The digest check ends alike. -/
theorem Twin.checkDigest (h : Twin b id w w') (hlocal : LocalFaults env b) {l : Loc}
    (hl : Disk.Under b l) (u : User) (dir : Dir) (replies : MessageQueue) (path : Path)
    (digest : Bytes) (noMatch failed : ErrType) :
    SameEnd b id (checkDigest env w u dir replies (toPath l) path digest noMatch failed)
      (checkDigest env w' u dir replies (toPath l) path digest noMatch failed) := by
  obtain ⟨w1, w1', found, hread, hread', h1⟩ := (h.md5Hash hlocal hl.below path).exists
  obtain ⟨w2, w2', done, hremove, hremove', h2⟩ := (h1.remove hlocal hl).exists
  unfold Proofs.checkDigest
  rw [hread, hread']
  rcases found with (_ | _) | found
  · simp only [hremove, hremove']
    cases done
    · exact h2.halted _ _
    · exact h2.answer _ _ _ _
  · exact h1.halted _ _
  · simp only [hremove, hremove']
    split
    · cases done
      · exact h2.halted _ _
      · exact h2.answer _ _ _ _
    · exact h1.answer _ _ _ _

/-- `handle_create` ends alike, from the parent directories on. -/
theorem Twin.createTransfer (h : Twin b id w w') (hlocal : LocalFaults env b) (hb : b ≠ [])
    {u : User} {dir : Dir} (hu : SessionOf b id u dir) (view : TlvView) (replies : MessageQueue)
    {path : Path} (hp : PlainPath path) (digest : Bytes) :
    SameEnd b id (createTransfer env w u dir view replies path digest)
      (createTransfer env w' u dir view replies path digest) := by
  obtain ⟨l, k, hpath, hl⟩ := hu.plain hb hp
  have hne : l ≠ [] := by
    rintro rfl
    exact hb (List.prefix_nil.mp hl)
  have hunder := under_concat hl k
  obtain rfl := hu.id
  unfold RemoteBackup.createTransfer
  dsimp only
  rw [hpath, parentPath_toPath]
  obtain ⟨w1, w1', made, hmake, hmake', h1⟩ := (h.createDirectories hlocal hne hl).exists
  rw [hmake, hmake']
  -- Each call answers the same in both worlds, so both take the same branch.
  cases made
  · exact h1.answer _ _ _ _
  obtain ⟨w2, w2', isFirst, hget, hget', h2⟩ := (h1.getStream hlocal hunder).exists
  dsimp only
  rw [hget, hget']
  dsimp only
  rw [h2.usable]
  split
  · exact h2.answer _ _ _ _
  refine h2.attempt u _ fun content _ => ?_
  have h3 := (h2.write env content).flush
  refine h3.attempt u _ fun isLast _ => ?_
  split
  · rw [createFinish_eq, createFinish_eq]
    exact h3.closed.checkDigest hlocal hunder u _ replies path digest _ _
  · exact h3.answer _ _ _ _

/-- The last chunk of an UPDATE ends alike. -/
theorem Twin.updateFinish (h : Twin b id w w') (hlocal : LocalFaults env b) {u : User}
    (hid : u.id = id) (dir : Dir) (replies : MessageQueue) {l : Loc} (hl : b <+: l) (k : Name)
    (path digest : Bytes) :
    SameEnd b id
      (updateFinish env w u dir replies (toPath (l ++ [k])) (tempPath (toPath (l ++ [k]))) path
        digest)
      (updateFinish env w' u dir replies (toPath (l ++ [k])) (tempPath (toPath (l ++ [k]))) path
        digest) := by
  obtain ⟨k', -, htemp⟩ := tempPath_toPath l k
  have hunder := under_concat hl k
  obtain rfl := hid
  rw [htemp]
  unfold RemoteBackup.updateFinish
  dsimp only
  rw [← Proofs.closed, ← Proofs.closed]
  obtain ⟨w1, w1', gone, hremove, hremove', h1⟩ := (h.closed.remove hlocal hunder).exists
  rw [hremove, hremove']
  cases gone
  · exact h1.halted _ _
  obtain ⟨w2, w2', there, hrename, hrename', h2⟩ :=
    (h1.rename hlocal (under_concat hl k') hunder).exists
  dsimp only
  rw [hrename, hrename']
  cases there
  · exact h2.halted _ _
  exact h2.checkDigest hlocal hunder u dir replies path digest .updateNoMatch .updateFailed

/-- `handle_update` ends alike, from the opening of the stream on. -/
theorem Twin.updateTransfer (h : Twin b id w w') (hlocal : LocalFaults env b) (hb : b ≠ [])
    {u : User} {dir : Dir} (hu : SessionOf b id u dir) (view : TlvView) (replies : MessageQueue)
    {path : Path} (hp : PlainPath path) (digest oldDigest : Bytes) :
    SameEnd b id (updateTransfer env w u dir view replies path digest oldDigest)
      (updateTransfer env w' u dir view replies path digest oldDigest) := by
  obtain ⟨l, k, hpath, hl⟩ := hu.plain hb hp
  obtain ⟨k', -, htemp⟩ := tempPath_toPath l k
  obtain rfl := hu.id
  obtain ⟨w1, w1', isFirst, hget, hget', h1⟩ := (h.getStream hlocal (under_concat hl k')).exists
  rw [← htemp] at hget hget'
  unfold RemoteBackup.updateTransfer
  dsimp only
  rw [hpath, hget, hget']
  dsimp only
  rw [h1.usable]
  split
  · exact h1.answer _ _ _ _
  refine h1.attempt u _ fun content _ => ?_
  have h2 := h1.write env content
  refine h2.attempt u _ fun isLast _ => ?_
  split
  · exact h2.updateFinish hlocal rfl _ replies hl k path digest
  · exact h2.answer _ _ _ _

/-- The loop looks at the same places in both worlds. Induction on the rounds. -/
theorem Twin.cleanup (h : Twin b id w w') (hlocal : LocalFaults env b) (fuel : Nat) (ms : Loc) :
    Twin b id (cleanup env (toPath b) fuel w (toPath (b ++ ms)))
      (cleanup env (toPath b) fuel w' (toPath (b ++ ms))) := by
  induction fuel generalizing w w' ms with
  | zero => exact h
  | succ fuel ih =>
      simp only [RemoteBackup.cleanup]
      split
      · exact h
      rename_i hat
      -- The climb has not come to the user's directory yet.
      have hms : ms ≠ [] := by
        rintro rfl
        exact hat (by rw [List.append_nil])
      have hunder := Disk.under_append b hms
      obtain ⟨w1, w1', empty, hlook, hlook', h1⟩ := (h.isEmpty hlocal hunder).exists
      rw [hlook, hlook']
      rcases empty with _ | _ | _
      · exact h1
      · exact h1
      obtain ⟨w2, w2', gone, hremove, hremove', h2⟩ := (h1.remove hlocal hunder).exists
      dsimp only
      rw [hremove, hremove']
      cases gone
      · exact h2
      · obtain ⟨ms, k, rfl⟩ := ms.eq_nil_or_concat'.resolve_left hms
        dsimp only
        rw [← List.append_assoc, parentPath_toPath]
        exact ih h2 ms

/-- `handle_erase` ends alike: file, empty directories and entry. -/
theorem Twin.eraseEntry (h : Twin b id w w') (hlocal : LocalFaults env b) (hb : b ≠ []) {u : User}
    {dir : Dir} (hu : SessionOf b id u dir) (replies : MessageQueue) {path : Path}
    (hp : PlainPath path) :
    SameEnd b id (eraseEntry env w u dir replies path) (eraseEntry env w' u dir replies path) := by
  obtain ⟨l, k, hpath, ms, rfl⟩ := hu.plain hb hp
  have hunder := under_concat (List.prefix_append b ms) k
  obtain ⟨w1, w1', gone, hremove, hremove', h1⟩ := (h.remove hlocal hunder).exists
  unfold RemoteBackup.eraseEntry
  dsimp only
  rw [hpath, hremove, hremove']
  cases gone
  · exact h1.answer _ _ _ _
  · dsimp only
    rw [parentPath_toPath, hu.path]
    exact (h1.cleanup hlocal _ ms).answer _ _ _ _

/-- An entry of the traversal is a file in both worlds, with one digest, or in neither. -/
theorem Twin.syncEntry (h : Twin b id w w') (hlocal : LocalFaults env b) (dir : Dir)
    (replies : MessageQueue) {l : Loc} (hl : b <+: l) :
    Alike b id (syncEntry env w dir replies (toPath l))
      (syncEntry env w' dir replies (toPath l)) := by
  have h1 := h.record (.isRegularFile (toPath l))
  unfold RemoteBackup.syncEntry
  dsimp only
  rw [h.fails hlocal (near_toPath hl (by simp [FsCall.named]))]
  split
  · exact ⟨h1, rfl⟩
  rw [World.record_disk, World.record_disk, Disk.status_toPath, Disk.status_toPath]
  rcases hnode : w.disk.node l with _ | _ | i
  · rw [(h.disk.none_iff hl).mpr hnode]
    exact ⟨h1, rfl⟩
  · rw [(h.disk.dir_iff hl).mpr hnode]
    exact ⟨h1, rfl⟩
  · obtain ⟨i', hi', -⟩ := h.disk.file hl hnode
    rw [hi']
    dsimp only
    obtain ⟨w2, w2', found, hread, hread', h2⟩ :=
      (h1.md5Hash hlocal hl ((toPath l).drop dir.path.length)).exists
    rw [hread, hread']
    -- The digests are the same, because the files hold the same bytes.
    rcases found with t | digest
    · exact ⟨h2, rfl⟩
    dsimp only
    generalize dir.insertOrAssign env.hash _ ⟨true, digest⟩ = inserted
    obtain ⟨dir', _ | _⟩ := inserted
    · exact ⟨h2, rfl⟩
    · exact ⟨h2, rfl⟩

/-- So is every entry. Induction on the entries still to come. -/
theorem Twin.syncLoop (h : Twin b id w w') (hlocal : LocalFaults env b) (ls : List Loc)
    (hls : ∀ l ∈ ls, b <+: l) (dir : Dir) (replies : MessageQueue) :
    Alike b id (syncLoop env (ls.map toPath) w dir replies)
      (syncLoop env (ls.map toPath) w' dir replies) := by
  induction ls generalizing w w' dir replies with
  | nil => exact ⟨h, rfl⟩
  | cons l ls ih =>
      have hl := hls l List.mem_cons_self
      obtain ⟨w1, w1', ⟨dir', replies', stop⟩, hentry, hentry', h1⟩ :=
        (h.syncEntry hlocal dir replies hl).exists
      have h2 := h1.record (.advance (toPath l))
      rw [List.map_cons]
      simp only [RemoteBackup.syncLoop]
      rw [hentry, hentry']
      rcases stop with _ | _ | t
      · dsimp only
        rw [h1.fails hlocal (near_toPath hl (by simp [FsCall.named]))]
        split
        · exact ⟨h2, rfl⟩
        · exact ih h2 (fun k hk => hls k (List.mem_cons_of_mem _ hk)) dir' replies'
      · exact ⟨h1, rfl⟩
      · exact ⟨h1, rfl⟩

/-- The traversal of the user's directory meets the same entries. -/
theorem Twin.iterate (h : Twin b id w w') (hlocal : LocalFaults env b) :
    iterate env w' (toPath b) = iterate env w (toPath b) := by
  unfold RemoteBackup.iterate
  rw [h.fails hlocal (near_toPath (List.prefix_refl b) (by simp [FsCall.named])),
    Disk.status_toPath, Disk.status_toPath, denote_toPath, h.disk.entriesBelow]
  rcases hnode : w.disk.node b with _ | _ | i
  · rw [(h.disk.none_iff (List.prefix_refl b)).mpr hnode]
  · rw [(h.disk.dir_iff (List.prefix_refl b)).mpr hnode]
  · obtain ⟨i', hi', -⟩ := h.disk.file (List.prefix_refl b) hnode
    rw [hi']

/-- `handle_sync` ends alike. -/
theorem Twin.handleSync (h : Twin b id w w') (hlocal : LocalFaults env b) (hb : b ≠ []) {u : User}
    {dir : Dir} (hu : SessionOf b id u dir) (replies : MessageQueue) :
    SameEnd b id (handleSync env w u replies) (handleSync env w' u replies) := by
  have hptr : u.dirPtr = .ok dir := by simp [User.dirPtr, hu.holds]
  have h1 := h.record (.iterate dir.path)
  have hiterate := h.iterate hlocal
  rw [← hu.path] at hiterate
  unfold RemoteBackup.handleSync
  rw [hptr]
  simp only [RemoteBackup.attempt]
  rw [hiterate]
  cases hentries : RemoteBackup.iterate env w dir.path with
  | none => exact h1.answer _ _ _ _
  | some entries =>
      rw [hu.path] at hentries
      obtain ⟨-, rfl⟩ := iterate_below hb hentries
      have hbelow : ∀ l ∈ env.visit (w.disk.entriesBelow b), b <+: l :=
        fun l hl => (mem_entriesBelow.mp ((env.visit_perm _).mem_iff.mp hl)).1
      -- The views, the queues and the ends of the two loops are the same.
      obtain ⟨w2, w2', ⟨dir', replies', stop⟩, hloop, hloop', h2⟩ :=
        (h1.syncLoop hlocal _ hbelow dir replies).exists
      dsimp only
      rw [hloop, hloop']
      rcases stop with _ | _ | _ | _
      · exact h2.answer _ _ _ _
      · exact h2.answer _ _ _ _
      · exact h2.answer _ _ _ _
      · exact h2.halted _ _

/-- The paths of the ITEMs that a CREATE, an UPDATE or an ERASE declares are plain. -/
def PlainItems (m : Message) : Prop :=
  ∀ k, k = MsgType.create ∨ k = MsgType.update ∨ k = MsgType.erase →
    m.msgType = some k.toByte → PlainRequest m

/-- A request of the user ends alike in twins. A session without a directory passes an AUTH at
most. -/
theorem handleRequest_twin (h : Twin b id w w') (hlocal : LocalFaults env b) (hb : b ≠ [])
    {u : User} (hu : u.dir = none ∨ ∃ dir, SessionOf b id u dir) {m : Message}
    (hm : PlainItems m) : SameEnd b id (handleRequest env w u m) (handleRequest env w' u m) := by
  -- What a task needs of the session, when it reads the directory.
  have hsession : ∀ dir, u.dir = some dir → SessionOf b id u dir := by
    intro dir hdir
    rcases hu with hnone | ⟨dir', hu⟩
    · exact absurd (hnone.symm.trans hdir) (by simp)
    · obtain rfl := Option.some.inj (hu.holds.symm.trans hdir)
      exact hu
  rw [handleRequest_eq_perform, handleRequest_eq_perform]
  cases htask : taskOf env u m with
  | stop => exact h.halted _ _
  | refuse => exact h.answer _ _ _ _
  | keepAlive => exact h.answer _ _ _ _
  | authenticate => exact h.answer _ _ _ _
  | sync replies =>
      cases hdir : u.dir with
      | none =>
          simp only [perform, RemoteBackup.handleSync, User.dirPtr, hdir, RemoteBackup.attempt]
          exact h.halted _ _
      | some dir => exact h.handleSync hlocal hb (hsession dir hdir) replies
  | create dir view replies path digest =>
      obtain ⟨-, -, htype, hsigned, -, hdir, -⟩ := passed_taskOf htask (by simp) (by simp)
      exact h.createTransfer hlocal hb (hsession dir hdir) view replies
        (hm _ (Or.inl rfl) htype path digest hsigned) digest
  | update dir view replies path digest oldDigest =>
      obtain ⟨-, -, htype, hsigned, -, hdir, -⟩ := passed_taskOf htask (by simp) (by simp)
      exact h.updateTransfer hlocal hb (hsession dir hdir) view replies
        (hm _ (Or.inr (Or.inl rfl)) htype path digest hsigned) digest oldDigest
  | erase dir replies path =>
      obtain ⟨-, -, htype, hdir, rsrc, -, hsigned⟩ := passed_taskOf htask (by simp) (by simp)
      exact h.eraseEntry hlocal hb (hsession dir hdir) replies
        (hm _ (Or.inr (Or.inr rfl)) htype path _ hsigned)

end Proofs

end RemoteBackup
