import RemoteBackup.Lib.Replace
import RemoteBackup.Proofs.Worlds
import RemoteBackup.Proofs.Requests
import RemoteBackup.Proofs.Views

/-!
# `RemoteBackup.Proofs.Transfers`: how a transfer request ends

`createTransfer` and `updateTransfer` go through the same phases: open the stream, write,
and on the last chunk close the stream, put the file in its place and check its digest. The
worlds between the phases have names here (`created`, `written`, `closed`, `renamed`).

* `createTransfer_ends`, `updateTransfer_ends`: the ways the two handlers can end, one
  constructor each, with the world, the session and the reply of that end.
* `writeChunk_ends`, `checkDigest_ends`, `updateFinish_ends`: the writing of a chunk and the
  blocks for the last one. The two handlers write a chunk the same way (`createTransfer_eq`,
  `updateTransfer_eq`) and check its digest the same way (`createFinish_eq`), up to the error
  they answer with.
* `writeChunk_usable`, `updateFinish_eq`: these parts when everything they ask for is there.
* `replaced_iff`: when UPDATE can put the new file in the place of the old one.
* `checked_create_status`, `checked_update_read`: what the digest check finds, read off the tree
  before the request.
-/

set_option autoImplicit false

namespace RemoteBackup.Proofs

open Lib

/-! ### The worlds between the phases -/

/-- CREATE has made the parent directories. -/
def created (env : Env) (w : World) (dir : Dir) (path : Path) : World :=
  (w.createDirectories env (parentPath (append dir.path path))).1

/-- The handler has asked for the user's stream. -/
def opened (env : Env) (w : World) (id : Bytes) (target : Path) : World :=
  (w.getStream env id target).1

/-- The content is written. CREATE flushes it as well. -/
def written (env : Env) (w : World) (id : Bytes) (content : Bytes) (flushed : Bool) : World :=
  if flushed then (w.write env id content).flush id else w.write env id content

/-- The stream is closed and out of the table. -/
def closed (w : World) (id : Bytes) : World := (w.close id).eraseStream id

/-- UPDATE has removed the old file. -/
def removed (env : Env) (w : World) (absolutePath : Path) : World :=
  (w.remove env absolutePath).1

/-- UPDATE has put the temporary file in its place. -/
def renamed (env : Env) (w : World) (absolutePath : Path) : World :=
  ((removed env w absolutePath).rename env (tempPath absolutePath) absolutePath).1

/-- The digest of the stored file was computed. -/
def checked (w : World) (absolutePath : Path) : World := w.record (.openRead absolutePath)

/-- Making the parent directories only adds to the tree. -/
theorem created_extends (env : Env) (w : World) (dir : Dir) (path : Path) :
    w.disk.Extends (created env w dir path).disk :=
  w.createDirectories_extends env _

/-- Opening the stream only adds to the tree. -/
theorem opened_extends (env : Env) (w : World) (id : Bytes) (target : Path) :
    w.disk.Extends (opened env w id target).disk :=
  w.getStream_extends env id target

/-- A new stream holds no bytes, and neither does a user without a stream. -/
theorem opened_pendingOf (env : Env) (w : World) (id : Bytes) (target : Path) :
    (opened env w id target).pendingOf id = w.pendingOf id := by
  rcases w.getStream_cases env id target with ⟨-, -, h⟩ | ⟨hnone, -, h⟩
  · rw [World.pendingOf, opened, h, World.pendingOf]
  · rw [World.pendingOf, opened, h, Function.update_self, World.pendingOf, hnone]

/-- A write makes and removes no entry of the tree. -/
@[simp] theorem written_node (env : Env) (w : World) (id content : Bytes) (flushed : Bool) :
    (written env w id content flushed).disk.node = w.disk.node := by
  unfold written
  cases flushed <;> simp

/-- A write is none of the recorded calls. -/
@[simp] theorem written_calls (env : Env) (w : World) (id content : Bytes) (flushed : Bool) :
    (written env w id content flushed).calls = w.calls := by
  unfold written
  cases flushed <;> simp

/-- What CREATE has written is on the disk, because it flushes. -/
theorem written_content (env : Env) (w : World) (id content : Bytes) :
    (written env w id content true).disk.content = (written env w id content true).settled id := by
  rw [written, if_pos rfl, World.flush_settled, World.flush_content]

/-! ### The digest check -/

/-- How the digest check ends: the file cannot be read, its digest is the declared one, or
the file goes, if it can be removed. -/
inductive CheckEnds (env : Env) (w : World) (u : User) (dir : Dir) (replies : MessageQueue)
    (absolutePath path : Path) (digest : Bytes) (err : ErrType) : Outcome → Prop
  | unreadable (hread : (w.md5Hash env absolutePath path).2 = .error .otherException) :
      CheckEnds env w u dir replies absolutePath path digest err
        (halted (checked w absolutePath) { u with dir := some dir } .uncaughtException)
  | matching (hread : (w.md5Hash env absolutePath path).2 = .ok digest) :
      CheckEnds env w u dir replies absolutePath path digest err
        (answer (checked w absolutePath) { u with dir := some dir } replies .ok .none)
  | stuck (found : Bytes) (hread : (w.md5Hash env absolutePath path).2 = .ok found)
      (hne : found ≠ digest)
      (hremove : ((checked w absolutePath).remove env absolutePath).2 = false) :
      CheckEnds env w u dir replies absolutePath path digest err
        (halted ((checked w absolutePath).remove env absolutePath).1 { u with dir := some dir }
          .exitFailure)
  | mismatch (found : Bytes) (hread : (w.md5Hash env absolutePath path).2 = .ok found)
      (hne : found ≠ digest)
      (hremove : ((checked w absolutePath).remove env absolutePath).2 = true) :
      CheckEnds env w u dir replies absolutePath path digest err
        (answer ((checked w absolutePath).remove env absolutePath).1
          { u with dir := some (dir.erase env.hash path).1 } replies .error err)

/-- A pair with this second part. -/
theorem eq_of_snd {α β : Type} {x : α × β} {b : β} (h : x.2 = b) : x = (x.1, b) := by
  rw [← h]

/-- The end of both blocks for a last chunk. -/
def checkDigest (env : Env) (w : World) (u : User) (dir : Dir) (replies : MessageQueue)
    (absolutePath path : Path) (digest : Bytes) (noMatch failed : ErrType) : Outcome :=
  match w.md5Hash env absolutePath path with
  | (w, .ok sDigest) =>
      if sDigest ≠ digest then
        match w.remove env absolutePath with
        | (w, false) => halted w { u with dir := some dir } .exitFailure
        | (w, true) =>
            answer w { u with dir := some (dir.erase env.hash path).1 } replies .error noMatch
      else answer w { u with dir := some dir } replies .ok .none
  | (w, .error .filesystemError) =>
      match w.remove env absolutePath with
      | (w, false) => halted w { u with dir := some dir } .exitFailure
      | (w, true) =>
          answer w { u with dir := some (dir.erase env.hash path).1 } replies .error failed
  | (w, .error .otherException) => halted w { u with dir := some dir } .uncaughtException

/-- The last chunk of a CREATE closes the stream and checks the digest. -/
theorem createFinish_eq (env : Env) (w : World) (u : User) (dir : Dir) (replies : MessageQueue)
    (absolutePath path : Path) (digest : Bytes) :
    createFinish env w u dir replies absolutePath path digest =
      checkDigest env (closed w u.id) u dir replies absolutePath path digest .createNoMatch
        .createFailed := rfl

/-- `tools::MD5_hash` never throws the exception that the handlers catch, so only the digest
decides. -/
theorem checkDigest_ends (env : Env) (w : World) (u : User) (dir : Dir) (replies : MessageQueue)
    (absolutePath path : Path) (digest : Bytes) (noMatch failed : ErrType) :
    CheckEnds env w u dir replies absolutePath path digest noMatch
      (checkDigest env w u dir replies absolutePath path digest noMatch failed) := by
  have hfst := World.md5Hash_fst env w absolutePath path
  have hresult := w.md5Hash_result env absolutePath path
  unfold checkDigest
  cases hmd5 : w.md5Hash env absolutePath path with
  | mk w' result =>
      rw [hmd5] at hfst hresult
      obtain rfl : w' = checked w absolutePath := hfst
      rcases hresult with rfl | ⟨found, rfl⟩
      · exact .unreadable (by rw [hmd5])
      · dsimp only
        split
        · rename_i hne
          cases hremove : ((checked w absolutePath).remove env absolutePath).2 with
          | false =>
              rw [eq_of_snd hremove]
              exact .stuck _ (by rw [hmd5]) hne hremove
          | true =>
              rw [eq_of_snd hremove]
              exact .mismatch _ (by rw [hmd5]) hne hremove
        · rename_i heq
          exact .matching (by rw [hmd5, not_not.mp heq])

/-! ### Opening and writing -/

/-- How the common part of the two handlers ends: the stream cannot be used, the message is
malformed, the chunk is stored, or it is the last one and `Last` says what follows.

`early` is the digest of the entry that a first chunk writes. -/
inductive WriteEnds (env : Env) (w : World) (u : User) (dir : Dir) (view : TlvView)
    (replies : MessageQueue) (path digest early : Bytes) (target : Path) (flushed : Bool)
    (failed : ErrType) (Last : World → Outcome → Prop) : Outcome → Prop
  | noStream (husable : (opened env w u.id target).usable u.id = false) :
      WriteEnds env w u dir view replies path digest early target flushed failed Last
        (answer (opened env w u.id target) u replies .error failed)
  | badContent (husable : (opened env w u.id target).usable u.id = true) (e : Halt)
      (hcontent : view.value = .error e) :
      WriteEnds env w u dir view replies path digest early target flushed failed Last
        (halted (opened env w u.id target) u e)
  | badEnd (husable : (opened env w u.id target).usable u.id = true) (content : Bytes)
      (hcontent : view.value = .ok content) (e : Halt) (hend : view.verifyEnd = .error e) :
      WriteEnds env w u dir view replies path digest early target flushed failed Last
        (halted (written env (opened env w u.id target) u.id content flushed) u e)
  | stored (husable : (opened env w u.id target).usable u.id = true) (content : Bytes)
      (hcontent : view.value = .ok content) (hend : view.verifyEnd = .ok false) :
      WriteEnds env w u dir view replies path digest early target flushed failed Last
        (answer (written env (opened env w u.id target) u.id content flushed)
          { u with
            dir := some (noteChunk env dir path
              (chunkResource (w.streams u.id).isNone false digest early)) }
          replies .ok .none)
  | last (husable : (opened env w u.id target).usable u.id = true) (content : Bytes)
      (hcontent : view.value = .ok content) (hend : view.verifyEnd = .ok true) (o : Outcome)
      (hlast : Last (written env (opened env w u.id target) u.id content flushed) o) :
      WriteEnds env w u dir view replies path digest early target flushed failed Last o

/-- The view stays one of the same directory. -/
@[simp] theorem noteChunk_path (env : Env) (d : Dir) (p : Path) (r : Option Resource) :
    (noteChunk env d p r).path = d.path := by
  cases r with
  | none => rfl
  | some r => exact d.insertOrAssign_path p r

/-- The lookups after a chunk of `p`. -/
theorem noteChunk_rsrc (env : Env) (d : Dir) (p q : Path) (r : Resource) :
    (noteChunk env d p (some r)).rsrc env.hash q =
      if sameKey env.hash p q then some r else d.rsrc env.hash q :=
  d.rsrc_insertOrAssign p q r

/-- The view after the last chunk, first or not. -/
theorem chunkResource_last (isFirst : Bool) (digest early : Bytes) :
    chunkResource isFirst true digest early = some ⟨true, digest⟩ := by
  cases isFirst <;> rfl

/-- The view after a chunk. Between the first chunk and the last the entry stays as the first has
made it. -/
theorem noteChunk_entries {env : Env} {dir : Dir} {path digest early : Bytes} {isFirst : Bool}
    (hlater : isFirst = false → dir.rsrc env.hash path = some ⟨false, early⟩) (isLast : Bool)
    (q : Path) :
    (noteChunk env dir path (chunkResource isFirst isLast digest early)).rsrc env.hash q =
      if sameKey env.hash path q then some ⟨isLast, if isLast then digest else early⟩
      else dir.rsrc env.hash q := by
  cases isFirst with
  | true => exact noteChunk_rsrc env dir path q _
  | false =>
      cases isLast with
      | true => exact noteChunk_rsrc env dir path q _
      | false =>
          show dir.rsrc env.hash q = _
          split
          · rename_i hq
            exact (dir.rsrc_congr hq).symm.trans (hlater rfl)
          · rfl

/-- A chunk is the first one exactly when the user has no stream. -/
theorem getStream_isFirst (env : Env) (w : World) (id : Bytes) (p : Path) :
    (w.getStream env id p).2 = (w.streams id).isNone := by
  rcases w.getStream_cases env id p with ⟨hs, h, -⟩ | ⟨hs, h, -⟩
  · rw [h, Option.isNone_eq_false_iff.mpr (Option.isSome_iff_ne_none.mpr hs)]
  · rw [h, hs]
    rfl

/-- The common part of the two handlers, from the opening of the stream on. `finish` is the
block for the last chunk. -/
def writeChunk (env : Env) (w : World) (u : User) (dir : Dir) (view : TlvView)
    (replies : MessageQueue) (path digest early : Bytes) (target : Path) (flushed : Bool)
    (failed : ErrType) (finish : World → Dir → Outcome) : Outcome :=
  match w.getStream env u.id target with
  | (w, isFirst) =>
      if !w.usable u.id then answer w u replies .error failed else
      attempt w u view.value fun content =>
      let w := written env w u.id content flushed
      attempt w u view.verifyEnd fun isLast =>
      let dir := noteChunk env dir path (chunkResource isFirst isLast digest early)
      if isLast then finish w dir
      else answer w { u with dir := some dir } replies .ok .none

/-- The common part of the two transfers, in all its ends. -/
theorem writeChunk_ends {env : Env} {w : World} {u : User} {dir : Dir} {view : TlvView}
    {replies : MessageQueue} {path digest early : Bytes} {target : Path} {flushed : Bool}
    {failed : ErrType} {finish : World → Dir → Outcome} {Last : World → Outcome → Prop}
    (hfinish : ∀ w, Last w (finish w (noteChunk env dir path (some ⟨true, digest⟩)))) :
    WriteEnds env w u dir view replies path digest early target flushed failed Last
      (writeChunk env w u dir view replies path digest early target flushed failed finish) := by
  unfold writeChunk
  rw [eq_of_snd (getStream_isFirst env w u.id target), ← opened]
  cases husable : (opened env w u.id target).usable u.id with
  | false =>
      simp only [husable, Bool.not_false, if_true]
      exact .noStream husable
  | true =>
      simp only [husable, Bool.not_true, Bool.false_eq_true, if_false]
      cases hcontent : view.value with
      | error e => exact .badContent husable e hcontent
      | ok content =>
          cases hend : view.verifyEnd with
          | error e => exact .badEnd husable content hcontent e hend
          | ok isLast =>
              cases isLast with
              | false => exact .stored husable content hcontent hend
              | true =>
                  refine .last husable content hcontent hend _ ?_
                  -- The last chunk notes the same entry whether it is the first one or not.
                  simp only [attempt, chunkResource_last, if_true]
                  exact hfinish _

/-- The block when the stream can be written to. -/
theorem writeChunk_usable {env : Env} {w : World} {u : User} {dir : Dir} {view : TlvView}
    {replies : MessageQueue} {path digest early content : Bytes} {target : Path}
    {flushed isLast : Bool} {failed : ErrType} {finish : World → Dir → Outcome}
    (husable : (opened env w u.id target).usable u.id = true) (hcontent : view.value = .ok content)
    (hend : view.verifyEnd = .ok isLast) :
    writeChunk env w u dir view replies path digest early target flushed failed finish =
      let w' := written env (opened env w u.id target) u.id content flushed
      let dir' := noteChunk env dir path (chunkResource (w.streams u.id).isNone isLast digest early)
      if isLast then finish w' dir'
      else answer w' { u with dir := some dir' } replies .ok .none := by
  rw [writeChunk, eq_of_snd (getStream_isFirst env w u.id target), ← opened]
  simp only [husable, Bool.not_true, Bool.false_eq_true, if_false, attempt, hcontent, hend]

/-! ### CREATE -/

/-- How `handle_create` ends once its checks are passed. -/
inductive CreateEnds (env : Env) (w : World) (u : User) (dir : Dir) (view : TlvView)
    (replies : MessageQueue) (path digest : Bytes) : Outcome → Prop
  | noParent (hparent : (w.createDirectories env (parentPath (append dir.path path))).2 = false) :
      CreateEnds env w u dir view replies path digest
        (answer (created env w dir path) u replies .error .createFailed)
  | hasParent (hparent : (w.createDirectories env (parentPath (append dir.path path))).2 = true)
      (o : Outcome)
      (hwrite : WriteEnds env (created env w dir path) u dir view replies path digest tempDigest
        (append dir.path path) true .createFailed
        (fun w => CheckEnds env (closed w u.id) u (noteChunk env dir path (some ⟨true, digest⟩))
          replies (append dir.path path) path digest .createNoMatch) o) :
      CreateEnds env w u dir view replies path digest o

/-- Where its parent directories are made, a CREATE is the common part with its own end. -/
theorem createTransfer_eq (env : Env) (w : World) (u : User) (dir : Dir) (view : TlvView)
    (replies : MessageQueue) (path digest : Bytes)
    (hparent : (w.createDirectories env (parentPath (append dir.path path))).2 = true) :
    createTransfer env w u dir view replies path digest =
      writeChunk env (created env w dir path) u dir view replies path digest tempDigest
        (append dir.path path) true .createFailed fun w noted =>
          createFinish env w u noted replies (append dir.path path) path digest := by
  unfold createTransfer
  dsimp only
  rw [eq_of_snd hparent]
  rfl

/-- `handle_create` from the parent directories on, in all its ends. -/
theorem createTransfer_ends (env : Env) (w : World) (u : User) (dir : Dir) (view : TlvView)
    (replies : MessageQueue) (path digest : Bytes) :
    CreateEnds env w u dir view replies path digest
      (createTransfer env w u dir view replies path digest) := by
  cases hparent : (w.createDirectories env (parentPath (append dir.path path))).2 with
  | false =>
      unfold createTransfer
      dsimp only
      rw [eq_of_snd hparent]
      exact .noParent hparent
  | true =>
      rw [createTransfer_eq env w u dir view replies path digest hparent]
      refine .hasParent hparent _ (writeChunk_ends fun w => ?_)
      rw [createFinish_eq]
      exact checkDigest_ends env _ u _ replies _ path digest _ _

/-! ### UPDATE -/

/-- How the block of `handle_update` for the last chunk ends: the old file cannot be removed,
the temporary one cannot be renamed, or the digest decides. `w` is the world after the
write. -/
inductive ReplaceEnds (env : Env) (u : User) (dir : Dir) (replies : MessageQueue)
    (absolutePath path : Path) (digest : Bytes) (w : World) : Outcome → Prop
  | notRemoved (hremove : ((closed w u.id).remove env absolutePath).2 = false) :
      ReplaceEnds env u dir replies absolutePath path digest w
        (halted (removed env (closed w u.id) absolutePath) { u with dir := some dir } .exitFailure)
  | notRenamed (hremove : ((closed w u.id).remove env absolutePath).2 = true)
      (hrename : ((removed env (closed w u.id) absolutePath).rename env (tempPath absolutePath)
        absolutePath).2 = false) :
      ReplaceEnds env u dir replies absolutePath path digest w
        (halted (renamed env (closed w u.id) absolutePath) { u with dir := some dir } .exitFailure)
  | replaced (hremove : ((closed w u.id).remove env absolutePath).2 = true)
      (hrename : ((removed env (closed w u.id) absolutePath).rename env (tempPath absolutePath)
        absolutePath).2 = true)
      (o : Outcome)
      (hcheck : CheckEnds env (renamed env (closed w u.id) absolutePath) u dir replies
        absolutePath path digest .updateNoMatch o) :
      ReplaceEnds env u dir replies absolutePath path digest w o

/-- The block of the last chunk comes to the digest check. -/
theorem updateFinish_eq {env : Env} {w : World} {u : User} {dir : Dir} {replies : MessageQueue}
    {absolutePath path digest : Bytes}
    (hremove : ((closed w u.id).remove env absolutePath).2 = true)
    (hrename : ((removed env (closed w u.id) absolutePath).rename env (tempPath absolutePath)
      absolutePath).2 = true) :
    updateFinish env w u dir replies absolutePath (tempPath absolutePath) path digest =
      checkDigest env (renamed env (closed w u.id) absolutePath) u dir replies absolutePath path
        digest .updateNoMatch .updateFailed := by
  unfold updateFinish
  dsimp only
  rw [← closed, eq_of_snd hremove, ← removed]
  dsimp only
  rw [eq_of_snd hrename, ← renamed]
  rfl

/-- The last chunk of an UPDATE, in all its ends. -/
theorem updateFinish_ends (env : Env) (w : World) (u : User) (dir : Dir) (replies : MessageQueue)
    (absolutePath path : Path) (digest : Bytes) :
    ReplaceEnds env u dir replies absolutePath path digest w
      (updateFinish env w u dir replies absolutePath (tempPath absolutePath) path digest) := by
  cases hremove : ((closed w u.id).remove env absolutePath).2 with
  | false =>
      unfold updateFinish
      dsimp only
      rw [← closed, eq_of_snd hremove]
      exact .notRemoved hremove
  | true =>
      cases hrename : ((removed env (closed w u.id) absolutePath).rename env
          (tempPath absolutePath) absolutePath).2 with
      | false =>
          unfold updateFinish
          dsimp only
          rw [← closed, eq_of_snd hremove, ← removed]
          dsimp only
          rw [eq_of_snd hrename]
          exact .notRenamed hremove hrename
      | true =>
          -- Both calls have succeeded, and the digest decides.
          rw [updateFinish_eq hremove hrename]
          refine .replaced hremove hrename _ ?_
          exact checkDigest_ends env _ u dir replies absolutePath path digest _ .updateFailed

/-- An UPDATE is the common part with its own end. -/
theorem updateTransfer_eq (env : Env) (w : World) (u : User) (dir : Dir) (view : TlvView)
    (replies : MessageQueue) (path digest oldDigest : Bytes) :
    updateTransfer env w u dir view replies path digest oldDigest =
      writeChunk env w u dir view replies path digest oldDigest (tempPath (append dir.path path))
        false .updateFailed fun w noted =>
          updateFinish env w u noted replies (append dir.path path)
            (tempPath (append dir.path path)) path digest := rfl

/-- `handle_update` from the opening of the stream on, in all its ends. -/
theorem updateTransfer_ends (env : Env) (w : World) (u : User) (dir : Dir) (view : TlvView)
    (replies : MessageQueue) (path digest oldDigest : Bytes) :
    WriteEnds env w u dir view replies path digest oldDigest (tempPath (append dir.path path))
      false .updateFailed
      (ReplaceEnds env u (noteChunk env dir path (some ⟨true, digest⟩)) replies
        (append dir.path path) path digest)
      (updateTransfer env w u dir view replies path digest oldDigest) := by
  rw [updateTransfer_eq]
  exact writeChunk_ends fun w => updateFinish_ends env w u _ replies _ path digest

/-! ### Calls with and without faults -/

/-- A removal succeeds when neither the surroundings nor the tree are against it. -/
theorem remove_iff {env : Env} {w : World} {p : Path} : (w.remove env p).2 = true ↔
    env.fails w.calls (.remove p) = false ∧ (w.disk.remove p).2 = true := by
  unfold World.remove
  cases env.fails w.calls (.remove p) <;> simp

/-- Where `remove` does not fail by itself, the tree is that of the disk's own operation. -/
theorem remove_disk {env : Env} {w : World} {p : Path}
    (h : env.fails w.calls (.remove p) = false) :
    (w.remove env p).1.disk = (w.disk.remove p).1 := by
  unfold World.remove
  rw [if_neg (by simp [h])]
  rfl

/-- `rename` succeeds when it does not fail by itself and the disk can do it. -/
theorem rename_iff {env : Env} {w : World} {p q : Path} : (w.rename env p q).2 = true ↔
    env.fails w.calls (.rename p q) = false ∧ (w.disk.rename p q).2 = true := by
  unfold World.rename
  cases env.fails w.calls (.rename p q) <;> simp

/-- Where `rename` does not fail by itself, the tree is that of the disk's own operation. -/
theorem rename_disk {env : Env} {w : World} {p q : Path}
    (h : env.fails w.calls (.rename p q) = false) :
    (w.rename env p q).1.disk = (w.disk.rename p q).1 := by
  unfold World.rename
  rw [if_neg (by simp [h])]
  rfl

/-- The parent directories that were made are those of the tree. -/
theorem created_disk {env : Env} {w : World} {dir : Dir} {path : Path}
    (h : (w.createDirectories env (parentPath (append dir.path path))).2 = true) :
    (created env w dir path).disk =
      (w.disk.createDirectories (parentPath (append dir.path path))).1 := by
  rw [created]
  unfold World.createDirectories at h ⊢
  split at h
  · cases h
  · rename_i hfails
    rw [if_neg hfails]
    rfl

/-- The suffix of a temporary file. -/
theorem temp_suffix : sep ∉ ascii ".temp" ∧ nul ∉ ascii ".temp" ∧ 2 < (ascii ".temp").length := by
  decide

/-- UPDATE removes the old file and renames the new one without an error exactly when neither
call fails by itself, the path gives way and the temporary file is there. -/
theorem replaced_iff {env : Env} {w : World} {p : Path} :
    ((w.remove env p).2 = true ∧ ((removed env w p).rename env (tempPath p) p).2 = true) ↔
      env.fails w.calls (.remove p) = false ∧
      env.fails (.remove p :: w.calls) (.rename (tempPath p) p) = false ∧
      w.disk.GivesWay p ∧ w.disk.status (tempPath p) ≠ none := by
  rw [remove_iff, rename_iff, removed, World.remove_calls, tempPath,
    ← Disk.replace_iff temp_suffix]
  constructor
  · rintro ⟨⟨hfault, hremove⟩, hfault', hrename⟩
    rw [remove_disk hfault] at hrename
    exact ⟨hfault, hfault', hremove, hrename⟩
  · rintro ⟨hfault, hfault', hremove, hrename⟩
    rw [remove_disk hfault]
    exact ⟨⟨hfault, hremove⟩, hfault', hrename⟩

/-- The tree after both calls. -/
theorem renamed_disk {env : Env} {w : World} {p : Path}
    (hremove : env.fails w.calls (.remove p) = false)
    (hrename : env.fails (.remove p :: w.calls) (.rename (tempPath p) p) = false) :
    (renamed env w p).disk = ((w.disk.remove p).1.rename (tempPath p) p).1 := by
  rw [renamed, rename_disk, removed, remove_disk hremove]
  rw [removed, World.remove_calls]
  exact hrename

/-! ### What the digest check finds -/

/-- The call fails or opens the target. -/
theorem opened_disk (env : Env) (w : World) (id : Bytes) (target : Path) :
    (opened env w id target).disk = w.disk ∨
      (opened env w id target).disk = (w.disk.openAppend target).1 := by
  rw [opened, World.getStream_disk, World.openStream]
  split
  · exact Or.inl rfl
  · exact Or.inr rfl

/-- Opening a stream makes no directory. -/
theorem opened_status_dir (env : Env) (w : World) (id : Bytes) (target q : Path) :
    (opened env w id target).disk.status q = some .dir ↔ w.disk.status q = some .dir := by
  rcases opened_disk env w id target with h | h
  · rw [h]
  · rw [h, Disk.openAppend_status_dir]

/-- The world of UPDATE before it removes the old file. -/
theorem closed_written_node (env : Env) (w : World) (id content : Bytes) (flushed : Bool) :
    (closed (written env w id content flushed) id).disk.node = w.disk.node := by
  rw [closed, World.closed_node, written_node]

/-- The digest check of CREATE meets a directory where there is one once the parents are made. -/
theorem checked_create_status {env : Env} {w : World} {dir : Dir} {path : Path}
    (hparent : (w.createDirectories env (parentPath (append dir.path path))).2 = true)
    (id content : Bytes) (flushed : Bool) :
    (closed (written env (opened env (created env w dir path) id (append dir.path path)) id content
      flushed) id).disk.status (append dir.path path) = some .dir ↔
      (w.disk.createDirectories (parentPath (append dir.path path))).1.status
        (append dir.path path) = some .dir := by
  rw [Disk.status_of_node (closed_written_node env _ id content flushed), opened_status_dir,
    created_disk hparent]

/-- The digest check of UPDATE meets a file unless the temporary path named a directory. -/
theorem checked_update_read {env : Env} {w : World} {p : Path} {id content : Bytes} {flushed : Bool}
    {w' : World}
    (hw : w' = closed (written env (opened env w id (tempPath p)) id content flushed) id)
    (hremove : (w'.remove env p).2 = true)
    (hrename : ((removed env w' p).rename env (tempPath p) p).2 = true) :
    (renamed env w' p).disk.read p ≠ none ↔ w.disk.status (tempPath p) ≠ some .dir := by
  obtain ⟨hfault, hfault', hway, hstatus⟩ := replaced_iff.mp ⟨hremove, hrename⟩
  rw [renamed_disk hfault hfault', tempPath, Disk.replaced_read_iff temp_suffix hway hstatus,
    ← tempPath, hw, Disk.status_of_node (closed_written_node env _ id content flushed), ne_eq,
    ne_eq, opened_status_dir]

end RemoteBackup.Proofs
