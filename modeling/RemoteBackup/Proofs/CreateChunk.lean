import RemoteBackup.Lib.Prune
import RemoteBackup.Proofs.Confinement
import RemoteBackup.Proofs.ExitFree
import RemoteBackup.Proofs.SignedTasks

/-!
# `RemoteBackup.Proofs.CreateChunk`: one chunk of a CREATE

What `handle_create` does on a file system without faults, when no file stands on the way to the
target.

* `opened_grown`: the parent directories are made and the target is opened, also when the user's
  stream is another one.
* `NewPath`: a path that a session can begin to create.
* `Takes`: how the user's stream and the target stand between two chunks.
* `createTransfer_takes`: a chunk appends its content, and the last one is checked and closes the
  stream.
-/

set_option autoImplicit false

namespace RemoteBackup.Proofs

open Lib

variable {env : Env}

/-- The parent directories are made. -/
theorem createDirectories_of_noFaults (hfaults : env.NoFaults) (w : World) (p : Path) :
    (w.createDirectories env p).2 = (w.disk.createDirectories p).2 ∧
      (w.createDirectories env p).1.disk = (w.disk.createDirectories p).1 := by
  simp [World.createDirectories, hfaults w.calls]

/-- Without faults opening a stream is opening the file. -/
theorem openStream_of_noFaults (hfaults : env.NoFaults) (w : World) (p : Path) :
    (w.openStream env p).2 = (w.disk.openAppend p).2 := by
  simp [World.openStream, hfaults w.calls]

/-- The target after CREATE has asked for the stream: it is there already, or it is new. -/
theorem opened_grown (hfaults : env.NoFaults) {w : World} {dir : Dir} {path : Path} {l : Loc}
    (hpath : append dir.path path = toPath l) (hl : l ≠ []) (hpass : w.disk.Passable l.dropLast)
    (hdir : w.disk.node l ≠ some .dir) (id : Bytes) :
    (w.createDirectories env (parentPath (append dir.path path))).2 = true ∧
      ∃ i, w.disk.Grown l i (opened env (created env w dir path) id (append dir.path path)).disk ∧
        ((w.disk.node l = some (.file i) ∧
            (opened env (created env w dir path) id (append dir.path path)).disk.content =
              w.disk.content) ∨
          (w.disk.node l = none ∧ i = w.disk.next ∧
            (opened env (created env w dir path) id (append dir.path path)).disk.content =
              Function.update w.disk.content i [])) ∧
        (opened env (created env w dir path) id (append dir.path path)).streams =
          if w.streams id = none then Function.update w.streams id (some ⟨some i, []⟩)
          else w.streams := by
  obtain ⟨m, n, rfl⟩ := (List.eq_nil_or_concat' l).resolve_left hl
  obtain ⟨hmade, i, hopen, hgrown, hcases⟩ := Disk.exists_grown hl hpass hdir
  have hparent : parentPath (append dir.path path) = toPath m := by rw [hpath, parentPath_toPath]
  rw [List.dropLast_concat] at hmade hopen hgrown hcases
  obtain ⟨hflag, hdisk⟩ := createDirectories_of_noFaults hfaults w (toPath m)
  have hstreams : (created env w dir path).streams = w.streams := by
    rw [created, World.createDirectories_streams]
  have hcreated : (created env w dir path).disk = (w.disk.createDirectories (toPath m)).1 := by
    rw [created, hparent, hdisk]
  have hopened : ((created env w dir path).openStream env (toPath (m ++ [n]))).2 = some i := by
    rw [openStream_of_noFaults hfaults, hcreated, hopen]
  refine ⟨by rw [hparent, hflag, hmade], i, ?_, ?_, ?_⟩
  · rw [opened_disk_of_noFaults hfaults, hcreated, hpath]
    exact hgrown
  · rw [opened_disk_of_noFaults hfaults, hcreated, hpath]
    exact hcases
  · rw [hpath, opened]
    -- `get_stream` opens its path in any case, and keeps the stream that the user has.
    rcases (created env w dir path).getStream_cases env id (toPath (m ++ [n])) with
      ⟨hsome, -, h⟩ | ⟨hnone, -, h⟩
    · rw [hstreams] at hsome
      rw [h, hstreams, if_neg hsome]
    · rw [hstreams] at hnone
      rw [h, hstreams, hopened, if_pos hnone]

/-- What a CREATE writes: the bytes are on the disk, and nothing is left in the stream. -/
theorem written_streams {w : World} {id : Bytes} {i : Nat} {pending : Bytes}
    (h : w.streams id = some ⟨some i, pending⟩) (content : Bytes) :
    (written env w id content true).streams =
        Function.update w.streams id (some ⟨some i, []⟩) ∧
      (written env w id content true).disk.content =
        Function.update w.disk.content i (w.disk.content i ++ (pending ++ content)) := by
  have hopen : w.openOn id = some i := World.openOn_eq_some.mpr ⟨pending, h⟩
  constructor
  · funext id'
    by_cases hid : id' = id
    · subst hid
      -- The flush comes behind the write, which leaves the stream open on the same file.
      have hopen' : (w.write env id' content).openOn id' = some i := by
        rw [World.write_openOn, hopen]
      obtain ⟨q, hq⟩ := World.openOn_eq_some.mp hopen'
      rw [written, if_pos rfl, World.flush, (World.drain_of_streams hq _).2.1, Function.update_self,
        Function.update_self, World.pendingOf, hq, List.drop_length]
    · rw [Function.update_of_ne hid]
      exact (World.flush_streams_of_ne _ _ hid).trans (World.write_streams_of_ne _ _ _ _ hid)
  · rw [written_content, written, if_pos rfl, World.flush_settled]
    funext j
    rw [World.write_settled, hopen]
    unfold World.settled
    rw [hopen, World.pendingOf, h]
    by_cases hj : j = i
    · subst hj
      simp
    · simp [Function.update_of_ne hj, Ne.symm hj]

/-- Closing a stream that holds nothing back. -/
theorem closed_of_flushed {w : World} {id : Bytes} {i : Nat}
    (h : w.streams id = some ⟨some i, []⟩) :
    (closed w id).streams = Function.update w.streams id none ∧
      (closed w id).disk.node = w.disk.node ∧ (closed w id).disk.content = w.disk.content := by
  refine ⟨?_, World.closed_node w id, ?_⟩
  · funext id'
    by_cases hid : id' = id
    · subst hid
      rw [Function.update_self, closed, World.eraseStream_streams_self]
    · rw [Function.update_of_ne hid]
      exact World.closed_streams_of_ne w id hid
  · rw [closed, World.closed_content]
    funext j
    simp [World.settled, World.pendingOf, h]

/-- A synced session without a stream, and a plain path that is neither in its view nor on the disk.
No file stands on the way to it. -/
structure NewPath (env : Env) (w : World) (u : User) (dir : Dir) (path : Path) (ns : Loc) :
    Prop where
  ready : Transferring u dir
  path_eq : dir.path = toPath (userDirectory env u)
  stream : w.streams u.id = none
  components : ns ≠ []
  plain : path = toPath ns ∨ sep :: path = toPath ns
  entry : dir.rsrc env.hash path = none
  free : w.disk.node (userDirectory env u ++ ns) = none
  way : w.disk.Passable (userDirectory env u ++ ns).dropLast

/-- The path of the file on the disk. -/
theorem NewPath.placed {w : World} {u : User} {dir : Dir} {path : Path} {ns : Loc}
    (h : NewPath env w u dir path ns) :
    append dir.path path = toPath (userDirectory env u ++ ns) := by
  rw [h.path_eq, append_plain (userDirectory_ne_nil env u) h.components h.plain]

/-- The file is not the root. -/
theorem NewPath.ne_nil {w : World} {u : User} {dir : Dir} {path : Path} {ns : Loc}
    (h : NewPath env w u dir path ns) : userDirectory env u ++ ns ≠ [] := by
  simp [h.components]

/-- How the stream and the target stand between two chunks: there is neither, or the stream writes
to the target, which holds `bytes`. -/
inductive Takes (w : World) (id : Bytes) (l : Loc) (i : Nat) : Bytes → Prop
  | first (hnone : w.streams id = none) (hfree : w.disk.node l = none) (hnew : i = w.disk.next) :
      Takes w id l i []
  | later (hopen : w.streams id = some ⟨some i, []⟩) (hfile : w.disk.node l = some (.file i)) :
      Takes w id l i (w.disk.content i)

/-- The file `i` has no place but `l`: it is new, or it stands there already. -/
theorem Takes.place {w : World} {id bytes : Bytes} {l k : Loc} {i : Nat}
    (h : Takes w id l i bytes) (hk : w.disk.node k = some (.file i)) : k = l := by
  cases h with
  | first _ _ hnew =>
      have hlt := w.disk.fresh k i hk
      omega
  | later _ hfile => exact w.disk.no_links k l i hk hfile

/-- The content of a file that has the declared digest. -/
theorem checkDigest_matching (hfaults : env.NoFaults) {w : World} {u : User} {dir : Dir}
    {replies : MessageQueue} {absolutePath path digest bytes : Bytes} {noMatch failed : ErrType}
    (hread : w.disk.read absolutePath = some bytes)
    (hdigest : md5HashString env (path ++ bytes) = digest) :
    checkDigest env w u dir replies absolutePath path digest noMatch failed =
      answer (checked w absolutePath) { u with dir := some dir } replies .ok .none := by
  have hmd5 : (w.md5Hash env absolutePath path).2 = .ok digest := by
    rw [World.md5Hash_of_read hread, if_neg (by simp [hfaults w.calls]), hdigest]
  rw [checkDigest, eq_of_snd hmd5]
  simp only [World.md5Hash_fst, ne_eq, not_true_eq_false, if_false]
  rfl

/-- The digest check of a file that is there. -/
theorem checkDigest_ok_iff (hfaults : env.NoFaults) {w : World} {u : User} {dir : Dir}
    {replies : MessageQueue} {absolutePath path digest bytes : Bytes} {noMatch failed : ErrType}
    (hread : w.disk.read absolutePath = some bytes) :
    (checkDigest env w u dir replies absolutePath path digest noMatch failed).Answered .ok .none ↔
      md5HashString env (path ++ bytes) = digest := by
  constructor
  · intro hok
    have hmd5 : (w.md5Hash env absolutePath path).2 = .ok (md5HashString env (path ++ bytes)) := by
      rw [World.md5Hash_of_read hread, if_neg (by simp [hfaults w.calls])]
    have hends := checkDigest_ends env w u dir replies absolutePath path digest noMatch failed
    generalize checkDigest env w u dir replies absolutePath path digest noMatch failed = o
      at hends hok
    cases hends with
    | unreadable => exact absurd hok not_answered_halted
    | matching hfound => exact Except.ok.inj (hmd5.symm.trans hfound)
    | stuck => exact absurd hok not_answered_halted
    | mismatch => exact absurd hok not_answered_error
  · intro hdigest
    rw [checkDigest_matching hfaults hread hdigest]
    exact ⟨_, rfl, rfl, rfl⟩

/-- The handler once the target is there and the stream can be written to. -/
theorem createTransfer_usable {w : World} {u : User} {dir : Dir} {view : TlvView}
    {replies : MessageQueue} {path digest content : Bytes} {isLast : Bool}
    (hmade : (w.createDirectories env (parentPath (append dir.path path))).2 = true)
    (husable : (opened env (created env w dir path) u.id (append dir.path path)).usable u.id = true)
    (hcontent : view.value = .ok content) (hend : view.verifyEnd = .ok isLast) :
    createTransfer env w u dir view replies path digest =
      let w' := written env (opened env (created env w dir path) u.id (append dir.path path)) u.id
        content true
      let dir' := noteChunk env dir path
        (chunkResource (w.streams u.id).isNone isLast digest tempDigest)
      if isLast then
        checkDigest env (closed w' u.id) u dir' replies (append dir.path path) path digest
          .createNoMatch .createFailed
      else answer w' { u with dir := some dir' } replies .ok .none := by
  rw [createTransfer_eq env w u dir view replies path digest hmade,
    writeChunk_usable husable hcontent hend, created, World.createDirectories_streams]
  simp only [createFinish_eq]

/-- A chunk is appended to the target. The last one is checked, and closes the stream. -/
theorem createTransfer_takes (hfaults : env.NoFaults) {w : World} {u : User} {dir : Dir}
    {view : TlvView} {replies : MessageQueue} {path digest : Bytes} {l : Loc}
    (hpath : append dir.path path = toPath l) (hl : l ≠ []) (hpass : w.disk.Passable l.dropLast)
    {i : Nat} {bytes : Bytes} (htakes : Takes w u.id l i bytes) {content : Bytes} {isLast : Bool}
    (hcontent : view.value = .ok content) (hend : view.verifyEnd = .ok isLast)
    (hdigest : isLast = true → md5HashString env (path ++ (bytes ++ content)) = digest) :
    ∃ w', createTransfer env w u dir view replies path digest =
        answer w'
          { u with
            dir := some (noteChunk env dir path
              (chunkResource (w.streams u.id).isNone isLast digest tempDigest)) }
          replies .ok .none ∧
      w.disk.Grown l i w'.disk ∧
      w'.disk.content = Function.update w.disk.content i (bytes ++ content) ∧
      w'.streams =
        Function.update w.streams u.id (if isLast then none else some ⟨some i, []⟩) := by
  have hdir : w.disk.node l ≠ some .dir := by
    cases htakes with
    | first _ hfree => simp [hfree]
    | later _ hfile => simp [hfile]
  obtain ⟨hmade, j, hgrown, hcases, hstreams⟩ := opened_grown hfaults hpath hl hpass hdir u.id
  -- The user's stream writes to the target, and the target holds the bytes.
  have hready : j = i ∧ (opened env (created env w dir path) u.id (append dir.path path)).streams =
      Function.update w.streams u.id (some ⟨some i, []⟩) ∧
      (opened env (created env w dir path) u.id (append dir.path path)).disk.content =
        Function.update w.disk.content i bytes := by
    cases htakes with
    | first hnone hfree hnew =>
        rcases hcases with ⟨hfile, -⟩ | ⟨-, hj, hcontent2⟩
        · rw [hfree] at hfile
          exact absurd hfile (by simp)
        · obtain rfl : j = i := hj.trans hnew.symm
          rw [if_pos hnone] at hstreams
          exact ⟨rfl, hstreams, hcontent2⟩
    | later hopen hfile =>
        rcases hcases with ⟨hfile', hcontent2⟩ | ⟨hfree, -⟩
        · rw [hfile] at hfile'
          cases hfile'
          rw [if_neg (by simp [hopen])] at hstreams
          exact ⟨rfl, by rw [hstreams, ← hopen, Function.update_eq_self],
            by rw [hcontent2, Function.update_eq_self]⟩
        · rw [hfile] at hfree
          exact absurd hfree (by simp)
  obtain ⟨rfl, hopen, hheld⟩ := hready
  have hself : (opened env (created env w dir path) u.id (append dir.path path)).streams u.id =
      some ⟨some j, []⟩ := by rw [hopen, Function.update_self]
  rw [createTransfer_usable hmade (by simp [World.usable, hself]) hcontent hend]
  generalize opened env (created env w dir path) u.id (append dir.path path) = w2
    at hgrown hself hopen hheld ⊢
  obtain ⟨hstreams3, hcontent3⟩ := @written_streams env w2 u.id j [] hself content
  have hnode3 := written_node env w2 u.id content true
  generalize written env w2 u.id content true = w3 at hstreams3 hcontent3 hnode3 ⊢
  rw [hopen, Function.update_idem] at hstreams3
  rw [hheld, Function.update_self, Function.update_idem, List.nil_append] at hcontent3
  have hgrown3 : w.disk.Grown l j w3.disk := by
    intro k
    rw [hnode3]
    exact hgrown k
  cases isLast with
  | false => exact ⟨w3, rfl, hgrown3, hcontent3, hstreams3⟩
  | true =>
      have hself3 : w3.streams u.id = some ⟨some j, []⟩ := by rw [hstreams3, Function.update_self]
      obtain ⟨hstreams4, hnode4, hcontent4⟩ := closed_of_flushed hself3
      have hgrown4 : w.disk.Grown l j (closed w3 u.id).disk := by
        intro k
        rw [hnode4]
        exact hgrown3 k
      -- The digest is taken of the file on the disk.
      have hread : (closed w3 u.id).disk.read (append dir.path path) = some (bytes ++ content) := by
        rw [hpath, Disk.read_toPath hgrown4.file, hcontent4, hcontent3, Function.update_self]
      refine ⟨checked (closed w3 u.id) (append dir.path path), ?_, hgrown4, ?_, ?_⟩
      · show checkDigest env _ u _ replies _ path digest _ _ = _
        rw [checkDigest_matching hfaults hread (hdigest rfl)]
      · exact hcontent4.trans hcontent3
      · show (closed w3 u.id).streams = _
        rw [hstreams4, hstreams3, Function.update_idem]
        rfl

end RemoteBackup.Proofs
