import RemoteBackup.Proofs.SessionGate

/-!
# `RemoteBackup.Proofs.StoredUpload`: what an acknowledged last chunk means

The handlers hash what their path names without a look at what it is. Where a directory shows a
length, a client can declare the digest of as many zero bytes, and is answered OK.

* `CheckEnds.stored_iff`: a digest check that is answered OK leaves the file, the entry and the
  table as they were, so the upload is stored exactly when it has read a file.
* `createTransfer_stored_iff`, `updateTransfer_stored_iff`: this, read off the tree before the
  request.
* `acknowledged_upload_stored_iff`: a CREATE or UPDATE with an END, answered OK in any state,
  leaves the file, its entry, and no open stream of the user, exactly when its place is no
  directory.
-/

set_option autoImplicit false

namespace RemoteBackup.Proofs

open Lib

/-- After a last chunk of `path` the file is there, its digest is the declared one, the view
says so, and the user has no stream. -/
structure Stored (env : Env) (o : Outcome) (path digest : Bytes) : Prop where
  file : ∃ dir bytes, o.user.dir = some dir ∧
    o.world.disk.read (append dir.path path) = some bytes ∧
    md5HashString env (path ++ bytes) = digest
  entry : ∃ dir, o.user.dir = some dir ∧ dir.rsrc env.hash path = some ⟨true, digest⟩
  noStream : o.world.streams o.user.id = none

/-- A digest check answered OK found the declared digest and changes nothing. What it has read is a
file, or it is not stored. -/
theorem CheckEnds.stored_iff {env : Env} {w : World} {u : User} {dir dir' : Dir}
    {replies : MessageQueue} {path digest : Bytes} {err : ErrType} {o : Outcome}
    (h : CheckEnds env w u dir' replies (append dir.path path) path digest err o)
    (hok : o.Answered .ok .none) (hpath : dir'.path = dir.path)
    (hentry : dir'.rsrc env.hash path = some ⟨true, digest⟩)
    (hstreams : w.streams u.id = none) :
    Stored env o path digest ↔ w.disk.read (append dir.path path) ≠ none := by
  cases h with
  | unreadable => exact absurd hok not_answered_halted
  | stuck => exact absurd hok not_answered_halted
  | mismatch => exact absurd hok not_answered_error
  | matching hread =>
      constructor
      · rintro ⟨⟨dir'', bytes, hdir, hbytes, -⟩, -, -⟩
        obtain rfl := Option.some.inj hdir
        rw [hpath] at hbytes
        exact Option.ne_none_iff_exists'.mpr ⟨bytes, hbytes⟩
      · intro hsome
        obtain ⟨bytes, hbytes⟩ := Option.ne_none_iff_exists'.mp hsome
        rw [World.md5Hash_of_read hbytes] at hread
        split at hread
        · cases hread
        · exact ⟨⟨dir', bytes, rfl, by rw [hpath]; exact hbytes, Except.ok.inj hread⟩,
            ⟨dir', rfl, hentry⟩, hstreams⟩

/-- A digest check answered OK has met a file or a directory. -/
theorem CheckEnds.read_iff {env : Env} {w : World} {u : User} {dir : Dir} {replies : MessageQueue}
    {absolutePath path digest : Bytes} {err : ErrType} {o : Outcome}
    (h : CheckEnds env w u dir replies absolutePath path digest err o)
    (hok : o.Answered .ok .none) :
    w.disk.read absolutePath ≠ none ↔ w.disk.status absolutePath ≠ some .dir := by
  cases h with
  | unreadable => exact absurd hok not_answered_halted
  | stuck => exact absurd hok not_answered_halted
  | mismatch => exact absurd hok not_answered_error
  | matching hread =>
      rcases w.md5Hash_cases env absolutePath path with herr | ⟨bytes, hbytes, -⟩ | ⟨hdir, -⟩
      · rw [hread] at herr
        cases herr
      · obtain ⟨i, hi, -⟩ := Disk.read_eq_some.mp hbytes
        simp [hbytes, hi]
      · simp [Disk.read, hdir]

/-- The common part of the two handlers, on a last chunk. -/
theorem WriteEnds.last_of_ok {env : Env} {w : World} {u : User} {dir : Dir} {view : TlvView}
    {replies : MessageQueue} {path digest early : Bytes} {target : Path} {flushed : Bool}
    {failed : ErrType} {Last : World → Outcome → Prop} {o : Outcome}
    (h : WriteEnds env w u dir view replies path digest early target flushed failed Last o)
    (hend : view.verifyEnd = .ok true) (hok : o.Answered .ok .none) :
    ∃ content, Last (written env (opened env w u.id target) u.id content flushed) o := by
  cases h with
  | noStream => exact absurd hok not_answered_error
  | badContent => exact absurd hok not_answered_halted
  | badEnd => exact absurd hok not_answered_halted
  | stored husable content hcontent hend' =>
      rw [hend] at hend'
      exact absurd (Except.ok.inj hend') (by simp)
  | last husable content hcontent hend' o h => exact ⟨content, h⟩

/-- A user whose stream was erased has none. -/
theorem closed_streams_self (w : World) (id : Bytes) : (closed w id).streams id = none :=
  (w.close id).eraseStream_streams_self id

/-- A CREATE that is answered OK on a last chunk is stored unless its path named a directory once
the parent directories were made. -/
theorem createTransfer_stored_iff {env : Env} {w : World} {u : User} {dir : Dir} {view : TlvView}
    {replies : MessageQueue} {path digest : Bytes} (hend : view.verifyEnd = .ok true)
    (hok : (createTransfer env w u dir view replies path digest).Answered .ok .none) :
    Stored env (createTransfer env w u dir view replies path digest) path digest ↔
      (w.disk.createDirectories (parentPath (append dir.path path))).1.status
        (append dir.path path) ≠ some .dir := by
  have hends := createTransfer_ends env w u dir view replies path digest
  generalize createTransfer env w u dir view replies path digest = o at hends hok ⊢
  cases hends with
  | noParent => exact absurd hok not_answered_error
  | hasParent hparent _ hwrite =>
      obtain ⟨content, hcheck⟩ := hwrite.last_of_ok hend hok
      rw [hcheck.stored_iff hok (noteChunk_path env dir path _) ?_ (closed_streams_self _ u.id),
        hcheck.read_iff hok, ne_eq, checked_create_status hparent]
      rw [noteChunk_rsrc, if_pos (sameKey_refl path)]

/-- An UPDATE that is answered OK on a last chunk is stored unless the temporary path named a
directory. -/
theorem updateTransfer_stored_iff {env : Env} {w : World} {u : User} {dir : Dir} {view : TlvView}
    {replies : MessageQueue} {path digest oldDigest : Bytes} (hend : view.verifyEnd = .ok true)
    (hok : (updateTransfer env w u dir view replies path digest oldDigest).Answered .ok .none) :
    Stored env (updateTransfer env w u dir view replies path digest oldDigest) path digest ↔
      w.disk.status (tempPath (append dir.path path)) ≠ some .dir := by
  obtain ⟨content, hreplace⟩ :=
    (updateTransfer_ends env w u dir view replies path digest oldDigest).last_of_ok hend hok
  generalize updateTransfer env w u dir view replies path digest oldDigest = o at hreplace hok ⊢
  cases hreplace with
  | notRemoved => exact absurd hok not_answered_halted
  | notRenamed => exact absurd hok not_answered_halted
  | replaced hremove hrename _ hcheck =>
      rw [hcheck.stored_iff hok (noteChunk_path env dir path _) ?_ ?_,
        checked_update_read rfl hremove hrename]
      · rw [noteChunk_rsrc, if_pos (sameKey_refl path)]
      · rw [renamed, World.rename_streams, removed, World.remove_streams, closed_streams_self]

/-- The place of a transfer's last chunk is no directory: for a CREATE its path, once the parent
directories are made; for an UPDATE that of the temporary file. -/
def NamesNoDirectory (w : World) (u : User) (m : Message) (path : Path) : Prop :=
  ∀ dir, u.dir = some dir →
    (m.msgType = some MsgType.create.toByte →
      (w.disk.createDirectories (parentPath (append dir.path path))).1.status
        (append dir.path path) ≠ some .dir) ∧
    (m.msgType = some MsgType.update.toByte →
      w.disk.status (tempPath (append dir.path path)) ≠ some .dir)

/-- For a CREATE it is about the path, once its directories are made. -/
theorem namesNoDirectory_create {w : World} {u : User} {m : Message} {path : Path} {dir : Dir}
    (hdir : u.dir = some dir) (htype : m.msgType = some MsgType.create.toByte) :
    NamesNoDirectory w u m path ↔
      (w.disk.createDirectories (parentPath (append dir.path path))).1.status
        (append dir.path path) ≠ some .dir := by
  have hne : MsgType.create.toByte ≠ MsgType.update.toByte := by decide
  simp [NamesNoDirectory, hdir, htype, hne]

/-- For an UPDATE it is about the temporary file. -/
theorem namesNoDirectory_update {w : World} {u : User} {m : Message} {path : Path} {dir : Dir}
    (hdir : u.dir = some dir) (htype : m.msgType = some MsgType.update.toByte) :
    NamesNoDirectory w u m path ↔ w.disk.status (tempPath (append dir.path path)) ≠ some .dir := by
  have hne : MsgType.update.toByte ≠ MsgType.create.toByte := by decide
  simp [NamesNoDirectory, hdir, htype, hne]

/-- A CREATE or UPDATE that is answered OK is a transfer of its sign into the user's directory. -/
theorem transfer_of_acknowledged {env : Env} {w : World} {u : User} {m : Message}
    {path digest : Bytes}
    (htype : m.msgType = some MsgType.create.toByte ∨ m.msgType = some MsgType.update.toByte)
    (hsigned : Signed m path digest) (hend : (TlvView.ofMessage m).verifyEnd = .ok true)
    (hok : (handleRequest env w u m).Answered .ok .none) :
    ∃ dir view replies, u.dir = some dir ∧ view.verifyEnd = .ok true ∧
      ((m.msgType = some MsgType.create.toByte ∧
          handleRequest env w u m = createTransfer env w u dir view replies path digest) ∨
        (m.msgType = some MsgType.update.toByte ∧ ∃ oldDigest,
          handleRequest env w u m =
            updateTransfer env w u dir view replies path digest oldDigest)) := by
  -- Only the tasks of a CREATE and of an UPDATE can come from such a message.
  have hkind : (taskOf env u m).msgType = some .create ∨ (taskOf env u m).msgType = some .update :=
    htype.imp (fun h => task_of_answered h hok fun herror => absurd herror (by simp))
      fun h => task_of_answered h hok fun herror => absurd herror (by simp)
  rw [handleRequest_eq_perform]
  cases htask : taskOf env u m with
  | create dir view replies path' digest' =>
      obtain ⟨-, -, hcreate, hsigned', hraw, hdir, -⟩ := passed_taskOf htask (by simp) (by simp)
      obtain ⟨rfl, rfl⟩ := hsigned.unique hsigned'
      exact ⟨dir, view, replies, hdir, (verifyEnd_of_raw hraw).trans hend, Or.inl ⟨hcreate, rfl⟩⟩
  | update dir view replies path' digest' oldDigest =>
      obtain ⟨-, -, hupdate, hsigned', hraw, hdir, -⟩ := passed_taskOf htask (by simp) (by simp)
      obtain ⟨rfl, rfl⟩ := hsigned.unique hsigned'
      exact ⟨dir, view, replies, hdir, (verifyEnd_of_raw hraw).trans hend,
        Or.inr ⟨hupdate, oldDigest, rfl⟩⟩
  | stop | refuse | keepAlive | authenticate | sync | erase => simp [htask, Task.msgType] at hkind

/-- Where its place is no directory, an acknowledged upload is stored. -/
theorem stored_of_acknowledged {env : Env} {w : World} {u : User} {m : Message}
    {path digest : Bytes}
    (htype : m.msgType = some MsgType.create.toByte ∨ m.msgType = some MsgType.update.toByte)
    (hsigned : Signed m path digest) (hend : (TlvView.ofMessage m).verifyEnd = .ok true)
    (hok : (handleRequest env w u m).Answered .ok .none) (hplace : NamesNoDirectory w u m path) :
    Stored env (handleRequest env w u m) path digest := by
  obtain ⟨dir, view, replies, hdir, hend', ⟨hcreate, heq⟩ | ⟨hupdate, oldDigest, heq⟩⟩ :=
    transfer_of_acknowledged htype hsigned hend hok
  · rw [heq] at hok ⊢
    rw [namesNoDirectory_create hdir hcreate] at hplace
    exact (createTransfer_stored_iff hend' hok).mpr hplace
  · rw [heq] at hok ⊢
    rw [namesNoDirectory_update hdir hupdate] at hplace
    exact (updateTransfer_stored_iff hend' hok).mpr hplace

/-- In every state, a CREATE or UPDATE with an END that is answered OK is stored exactly when its
place is no directory. -/
theorem acknowledged_upload_stored_iff {env : Env} {w : World} {u : User} {m : Message}
    {path digest : Bytes}
    (htype : m.msgType = some MsgType.create.toByte ∨ m.msgType = some MsgType.update.toByte)
    (hsigned : Signed m path digest) (hend : (TlvView.ofMessage m).verifyEnd = .ok true)
    (hok : (handleRequest env w u m).Answered .ok .none) :
    Stored env (handleRequest env w u m) path digest ↔ NamesNoDirectory w u m path := by
  refine ⟨fun hstored => ?_, stored_of_acknowledged htype hsigned hend hok⟩
  obtain ⟨dir, view, replies, hdir, hend', ⟨hcreate, heq⟩ | ⟨hupdate, oldDigest, heq⟩⟩ :=
    transfer_of_acknowledged htype hsigned hend hok
  · rw [heq] at hok hstored
    exact (namesNoDirectory_create hdir hcreate).mpr
      ((createTransfer_stored_iff hend' hok).mp hstored)
  · rw [heq] at hok hstored
    exact (namesNoDirectory_update hdir hupdate).mpr
      ((updateTransfer_stored_iff hend' hok).mp hstored)

/-! ### A user with an empty directory -/

/-- `bobby`'s directory. -/
def bobbyPath : Path := append (ascii "/backup") (ascii "F5CEC4A9E67057735BC2B7577B80CB9D")

/-- `bobby`'s session once it is synced, with these entries in its view. -/
def bobby (content : List (Path × Resource)) : User where
  id := ascii "F5CEC4A9E67057735BC2B7577B80CB9D"
  username := ascii "bobby"
  ip := ascii "127.0.0.1"
  isAuth := true
  isSynced := true
  dir := some ⟨bobbyPath, content⟩

/-- The world when `bobby`'s directory has just been made. -/
def bobbyWorld : World := World.ofDisk (Disk.empty.createDirectories bobbyPath).1

/-- `bobby` connects, and his AUTH and his SYNC are answered. -/
def bobbyLogin : List Event :=
  [.accept 0 false false (ascii "127.0.0.1"), .request 0 bobbyAuth,
    .request 0 (bareMessage .sync)]

/-- One chunk of a CREATE or UPDATE. -/
def chunk (t : MsgType) (path digest content : Bytes) (isLast : Bool) : Message :=
  encode t.toByte ([(TlvType.item.toByte, createSign path digest),
    (TlvType.content.toByte, content)] ++ if isLast then [(TlvType.end_.toByte, [])] else [])

/-- The MD5 digest of `/ahi`, which is that of a file `/a` with the content `hi`. -/
def ahi : Bytes × List UInt32 :=
  (ascii "/ahi", [0x1D6677F1, 0x499CDF9D, 0x69169C40, 0x83605DE9])

/-- `bobby` stores the file `/a` with the content `hi`: there was nothing at its place. -/
theorem acknowledged_upload_stored_iff_bobby :
    Stored (bobbyAndBobEnv [ahi])
      (handleRequest (bobbyAndBobEnv [ahi]) bobbyWorld (bobby [])
        (chunk .create (ascii "/a") (ascii "1D6677F1499CDF9D69169C4083605DE9") (ascii "hi") true))
      (ascii "/a") (ascii "1D6677F1499CDF9D69169C4083605DE9") := by
  refine (acknowledged_upload_stored_iff (Or.inl rfl) ⟨_, _, rfl, rfl, by decide +kernel⟩
    (by decide +kernel) (by decide +kernel)).mpr ?_
  exact (namesNoDirectory_create rfl rfl).mpr (by decide +kernel)

/-- The MD5 digest of `/a` and six zero bytes. -/
def azeros : Bytes × List UInt32 :=
  (ascii "/a" ++ List.replicate 6 0, [0x88DE7952, 0x65700FAF, 0xD05D65D3, 0x78918B22])

/-- `bobby`'s session and the world after the first chunk of `/a/b`, on a file system whose
directories show the length 6. -/
def bobbyNested : Server :=
  run (Server.step ((bobbyAndBobEnv [azeros]).withDirectories 6)) (Server.start bobbyWorld)
    (bobbyLogin ++ [.request 0 (chunk .create (ascii "/a/b") (ascii "00") (ascii "hi") false)])

/-- A last chunk of `/a` without content, with the digest of `/a` and six zero bytes. -/
def zerosA : Message :=
  chunk .create (ascii "/a") (ascii "88DE795265700FAFD05D65D378918B22") [] true

/-- It finds the open stream and the directory `/a`, and is answered OK. There is no file. -/
theorem not_acknowledged_upload_stored :
    ∃ u, bobbyNested.sessions 0 = some u ∧
      (handleRequest ((bobbyAndBobEnv [azeros]).withDirectories 6) bobbyNested.world u
        zerosA).Answered .ok .none ∧
      ¬ Stored ((bobbyAndBobEnv [azeros]).withDirectories 6)
        (handleRequest ((bobbyAndBobEnv [azeros]).withDirectories 6) bobbyNested.world u zerosA)
        (ascii "/a") (ascii "88DE795265700FAFD05D65D378918B22") := by
  refine ⟨bobby [(ascii "/a/b", ⟨false, ascii "TEMP"⟩)], by decide +kernel, by decide +kernel, ?_⟩
  rintro ⟨⟨dir, bytes, hdir, hread, -⟩, -, -⟩
  have hnone : ((handleRequest ((bobbyAndBobEnv [azeros]).withDirectories 6) bobbyNested.world
      (bobby [(ascii "/a/b", ⟨false, ascii "TEMP"⟩)]) zerosA).user.dir.map fun dir =>
      (handleRequest ((bobbyAndBobEnv [azeros]).withDirectories 6) bobbyNested.world
        (bobby [(ascii "/a/b", ⟨false, ascii "TEMP"⟩)]) zerosA).world.disk.read
          (append dir.path (ascii "/a"))) = some none := by decide +kernel
  rw [hdir, Option.map_some, hread] at hnone
  cases hnone

/-- The first chunk of a CREATE of `/a`. -/
def beginA : Message := chunk .create (ascii "/a") (ascii "00") (ascii "h") false

/-- `bobby` has begun to store `/a`. -/
def bobbyBegun : Server :=
  run (Server.step (bobbyAndBobEnv [ahi])) (Server.start bobbyWorld)
    (bobbyLogin ++ [.request 0 beginA])

/-! ### A user with a tree -/

/-- The MD5 digest of `/d/e/fhi`, which is that of a file `/d/e/f` with the content `hi`. -/
def defhi : Bytes × List UInt32 :=
  (ascii "/d/e/fhi", [0xD2D95782, 0x30E47854, 0x6948307B, 0x66813926])

/-- The MD5 digest of `/d/gyo`, which is that of a file `/d/g` with the content `yo`. -/
def dgyo : Bytes × List UInt32 :=
  (ascii "/d/gyo", [0x61CA7C40, 0x56233137, 0x46F71740, 0xB97D83A5])

/-- A server that can hash the two files. -/
def treeEnv : Env := bobbyAndBobEnv [defhi, dgyo]

/-- The entry of `/d/e/f` in `bobby`'s view. -/
def entryOfF : Path × Resource := (ascii "/d/e/f", ⟨true, ascii "D2D9578230E478546948307B66813926"⟩)

/-- The entry of `/d/g`. -/
def entryOfG : Path × Resource := (ascii "/d/g", ⟨true, ascii "61CA7C405623313746F71740B97D83A5"⟩)

/-- The complete upload of `/d/e/f`. -/
def storeF : Message :=
  chunk .create (ascii "/d/e/f") (ascii "D2D9578230E478546948307B66813926") (ascii "hi") true

/-- The complete upload of `/d/g`. -/
def storeG : Message :=
  chunk .create (ascii "/d/g") (ascii "61CA7C405623313746F71740B97D83A5") (ascii "yo") true

/-- `bobby` has stored `/d/g`. -/
def bobbyWithG : Server :=
  run (Server.step treeEnv) (Server.start bobbyWorld) (bobbyLogin ++ [.request 0 storeG])

/-- He has stored `/d/e/f` as well. -/
def bobbyTree : Server := run (Server.step treeEnv) bobbyWithG [.request 0 storeF]

end RemoteBackup.Proofs
