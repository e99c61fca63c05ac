import RemoteBackup.Lib.Replace
import RemoteBackup.Proofs.FailedUpdate
import RemoteBackup.Proofs.Halts

/-!
# `RemoteBackup.Proofs.ExitFree`: when `std::exit` is called

`handle_create` and `handle_update` end the process when a `remove` or a `rename` reports an
error. Without faults a file that was just read can be removed. So what is left is a last chunk
whose path names a directory by now: UPDATE cannot move it away, and both handlers hash as many
zero bytes as it shows, and cannot remove it when the digest is another.

* `CheckEnds.ne_exit_iff`: when the digest check calls `std::exit`.
* `createTransfer_ne_exit_iff`, `updateTransfer_ne_exit_iff`: when a transfer does.
* `never_exits_iff`: no request of a run calls `std::exit` exactly when every last chunk of a
  transfer is unobstructed.
-/

set_option autoImplicit false

namespace RemoteBackup.Proofs

open Lib

/-! ### Opening -/

/-- The user's stream in the table is open, or there is none and the target opens. -/
def CanWrite (env : Env) (w : World) (id : Bytes) (target : Path) : Prop :=
  match w.streams id with
  | some s => s.inode.isSome = true
  | none => env.fails w.calls (.openStream target) = false ∧
      (w.disk.openAppend target).2.isSome = true

/-- The stream the handler has got is open exactly when the user can write. -/
theorem opened_usable_iff (env : Env) (w : World) (id : Bytes) (target : Path) :
    (opened env w id target).usable id = true ↔ CanWrite env w id target := by
  unfold World.usable CanWrite opened
  rcases w.getStream_cases env id target with ⟨hsome, -, hstreams⟩ | ⟨hnone, -, hstreams⟩
  · obtain ⟨s, hs⟩ := Option.ne_none_iff_exists'.mp hsome
    rw [hstreams, hs]
  · rw [hstreams, Function.update_self, hnone]
    unfold World.openStream
    cases env.fails w.calls (.openStream target) <;> simp

/-- Without faults, opening the user's stream opens the target. -/
theorem opened_disk_of_noFaults {env : Env} (h : env.NoFaults) (w : World) (id : Bytes)
    (target : Path) : (opened env w id target).disk = (w.disk.openAppend target).1 := by
  rw [opened, World.getStream_disk, World.openStream,
    if_neg (by simp [h w.calls (.openStream target)])]
  rfl

/-- Opening the temporary file takes no room away from the file. -/
theorem givesWay_opened (env : Env) (w : World) (id : Bytes) (p : Path) :
    (opened env w id (tempPath p)).disk.GivesWay p ↔ w.disk.GivesWay p := by
  rcases opened_disk env w id (tempPath p) with h | h
  · rw [h]
  · rw [h, tempPath, Disk.givesWay_openAppend temp_suffix]

/-- CREATE opens its path, and a directory stays what it is. -/
theorem opened_stays (env : Env) (w : World) (id : Bytes) (target : Path) :
    (opened env w id target).disk.Stays target ↔ w.disk.Stays target := by
  rcases opened_disk env w id target with h | h
  · rw [h]
  · rw [h, Disk.stays_openAppend]

/-- UPDATE opens the temporary path, and a directory stays what it is. -/
theorem opened_occupied (env : Env) (w : World) (id : Bytes) (p : Path) :
    (opened env w id (tempPath p)).disk.Occupied p (tempPath p) ↔
      w.disk.Occupied p (tempPath p) := by
  rcases opened_disk env w id (tempPath p) with h | h
  · rw [h]
  · rw [h, Disk.occupied_openAppend]

/-! ### The digest check -/

/-- The directory at the path shows a length, and the digest of as many zero bytes is not the
declared one. `calls` are the calls before. -/
def HashesOtherwise (env : Env) (calls : List FsCall) (absolutePath path digest : Bytes) : Prop :=
  ∃ n, env.directoryLength calls absolutePath = some n ∧
    md5HashString env (path ++ List.replicate n 0) ≠ digest

/-- The digest check calls `std::exit` on a directory with another digest that cannot be
removed, and nowhere else: a file that was just read can be removed. -/
theorem CheckEnds.ne_exit_iff {env : Env} (hfaults : env.NoFaults) {w : World} {u : User}
    {dir : Dir} {replies : MessageQueue} {absolutePath path digest : Bytes} {err : ErrType}
    {o : Outcome}
    (h : CheckEnds env w u dir replies absolutePath path digest err o) :
    o.result ≠ .error .exitFailure ↔
      ¬ (w.disk.Stays absolutePath ∧ HashesOtherwise env w.calls absolutePath path digest) := by
  have hhash : ∀ n, w.disk.status absolutePath = some .dir →
      env.directoryLength w.calls absolutePath = some n →
      (w.md5Hash env absolutePath path).2 =
        .ok (md5HashString env (path ++ List.replicate n 0)) := by
    intro n hdir hn
    rw [World.md5Hash_of_dir hdir hn, if_neg (by simp [hfaults w.calls])]
  have hremoved : ((checked w absolutePath).remove env absolutePath).2 =
      (w.disk.remove absolutePath).2 := by
    simp [World.remove, hfaults _ _, checked]
  cases h with
  | unreadable hread =>
      refine iff_of_true (by simp [halted]) ?_
      rintro ⟨⟨hdir, -⟩, n, hn, -⟩
      rw [hhash n hdir hn] at hread
      cases hread
  | matching hread =>
      refine iff_of_true (by simp [answer]) ?_
      rintro ⟨⟨hdir, -⟩, n, hn, hne⟩
      rw [hhash n hdir hn] at hread
      exact hne (Except.ok.inj hread)
  | mismatch found hread hne hremove =>
      refine iff_of_true (by simp [answer]) ?_
      rintro ⟨⟨-, hstays⟩, -⟩
      rw [hremoved, hstays] at hremove
      cases hremove
  | stuck found hread hne hremove =>
      refine iff_of_false (by simp [halted]) (not_not_intro ?_)
      rw [hremoved] at hremove
      rcases w.md5Hash_cases env absolutePath path with hbad | ⟨bytes, hbytes, -⟩ |
        ⟨hdir, n, hn, hmd5⟩
      · rw [hread] at hbad
        cases hbad
      · obtain ⟨i, hstatus, -⟩ := Disk.read_eq_some.mp hbytes
        obtain ⟨l, hl, hi⟩ := Disk.status_eq_some.mp hstatus
        rw [Disk.remove_file hl hi] at hremove
        cases hremove
      · rw [hread] at hmd5
        exact ⟨⟨hdir, hremove⟩, n, hn, Except.ok.inj hmd5 ▸ hne⟩

/-! ### One request -/

/-- No handler calls `std::exit` on this request. -/
def NeverExits (env : Env) (w : World) (u : User) (m : Message) : Prop :=
  (handleRequest env w u m).result ≠ .error .exitFailure

/-- What holds of the last chunk of a transfer that has passed its checks and can write to the
user's stream. For an UPDATE its path gives way. And the path that is hashed does not end up as a
directory with another digest that cannot be removed: for a CREATE its own, once the parent
directories are made; for an UPDATE that of the temporary file. -/
structure Unobstructed (env : Env) (w : World) (u : User) (m : Message) : Prop where
  create : ∀ dir view replies path digest content,
    taskOf env u m = .create dir view replies path digest →
    (w.createDirectories env (parentPath (append dir.path path))).2 = true →
    CanWrite env (created env w dir path) u.id (append dir.path path) →
    view.value = .ok content → view.verifyEnd = .ok true →
    ¬ ((w.disk.createDirectories (parentPath (append dir.path path))).1.Stays
        (append dir.path path) ∧
      HashesOtherwise env (.openStream (append dir.path path) ::
        .createDirectories (parentPath (append dir.path path)) :: w.calls)
        (append dir.path path) path digest)
  update : ∀ dir view replies path digest oldDigest content,
    taskOf env u m = .update dir view replies path digest oldDigest →
    CanWrite env w u.id (tempPath (append dir.path path)) → view.value = .ok content →
    view.verifyEnd = .ok true → w.disk.GivesWay (append dir.path path) ∧
      ¬ (w.disk.Occupied (append dir.path path) (tempPath (append dir.path path)) ∧
        HashesOtherwise env (.rename (tempPath (append dir.path path)) (append dir.path path) ::
          .remove (append dir.path path) :: .openStream (tempPath (append dir.path path)) ::
            w.calls) (append dir.path path) path digest)

/-- The common part of the two handlers calls `std::exit` at most for a last chunk. -/
theorem WriteEnds.ne_exit_iff {env : Env} {w : World} {u : User} {dir : Dir} {view : TlvView}
    {replies : MessageQueue} {path digest early : Bytes} {target : Path} {flushed : Bool}
    {failed : ErrType} {Last : World → Outcome → Prop} {o : Outcome}
    (h : WriteEnds env w u dir view replies path digest early target flushed failed Last o)
    (hvalid : view.valid_ = true) {P : Prop}
    (hlast : ∀ content, Last (written env (opened env w u.id target) u.id content flushed) o →
      (o.result ≠ .error .exitFailure ↔ P)) :
    o.result ≠ .error .exitFailure ↔ ∀ content, CanWrite env w u.id target →
      view.value = .ok content → view.verifyEnd = .ok true → P := by
  rw [← opened_usable_iff]
  cases h with
  | noStream husable => simp [answer, husable]
  | badContent _ e hcontent => simp [halted, hcontent, onlyUndefined_value hvalid e hcontent]
  | badEnd _ _ _ e hend => simp [halted, hend, onlyUndefined_verifyEnd view e hend]
  | stored _ _ _ hend => simp [answer, hend]
  | last husable content hcontent hend o h =>
      rw [hlast content h]
      exact ⟨fun hP _ _ _ _ => hP, fun hP => hP content husable hcontent hend⟩

/-- CREATE calls `std::exit` exactly on the last chunk of a path that is a directory, hashes
otherwise and stays. -/
theorem createTransfer_ne_exit_iff {env : Env} (hfaults : env.NoFaults) (w : World) (u : User)
    (dir : Dir) {view : TlvView} (hvalid : view.valid_ = true) (replies : MessageQueue)
    (path digest : Bytes) :
    (createTransfer env w u dir view replies path digest).result ≠ .error .exitFailure ↔
      ∀ content, (w.createDirectories env (parentPath (append dir.path path))).2 = true →
        CanWrite env (created env w dir path) u.id (append dir.path path) →
        view.value = .ok content → view.verifyEnd = .ok true →
        ¬ ((w.disk.createDirectories (parentPath (append dir.path path))).1.Stays
            (append dir.path path) ∧
          HashesOtherwise env (.openStream (append dir.path path) ::
            .createDirectories (parentPath (append dir.path path)) :: w.calls)
            (append dir.path path) path digest) := by
  have hends := createTransfer_ends env w u dir view replies path digest
  generalize createTransfer env w u dir view replies path digest = o at hends ⊢
  cases hends with
  | noParent hparent => simp [answer, hparent]
  | hasParent hparent _ hwrite =>
      rw [hwrite.ne_exit_iff hvalid fun content h => ?_]
      · exact forall_congr' fun content => ⟨fun h _ => h, fun h => h hparent⟩
      -- What is checked is the tree in which the parent directories were made.
      · rw [h.ne_exit_iff hfaults, Disk.stays_of_node (closed_written_node env _ u.id content true),
          opened_stays, created_disk hparent, closed, World.closed_calls, written_calls, opened,
          World.getStream_calls, created, World.createDirectories_calls]

/-- The block of UPDATE for the last chunk calls `std::exit` exactly when it cannot put the new
file in the place of the old one, or puts a directory there that stays. -/
theorem ReplaceEnds.ne_exit_iff {env : Env} (hfaults : env.NoFaults) {u : User} {dir : Dir}
    {replies : MessageQueue} {absolutePath path digest : Bytes} {w : World} {o : Outcome}
    (h : ReplaceEnds env u dir replies absolutePath path digest w o) :
    o.result ≠ .error .exitFailure ↔ (closed w u.id).disk.GivesWay absolutePath ∧
      (closed w u.id).disk.status (tempPath absolutePath) ≠ none ∧
      ¬ ((closed w u.id).disk.Occupied absolutePath (tempPath absolutePath) ∧
        HashesOtherwise env (.rename (tempPath absolutePath) absolutePath ::
          .remove absolutePath :: (closed w u.id).calls) absolutePath path digest) := by
  have hiff := @replaced_iff env (closed w u.id) absolutePath
  simp only [hfaults _ _, true_and] at hiff
  rw [← and_assoc, ← hiff]
  cases h with
  | notRemoved hremove => simp [halted, hremove]
  | notRenamed hremove hrename => simp [halted, hremove, hrename]
  | replaced hremove hrename o hcheck =>
      obtain ⟨hway, hstatus⟩ := hiff.mp ⟨hremove, hrename⟩
      have hstays : (renamed env (closed w u.id) absolutePath).disk.Stays absolutePath ↔
          (closed w u.id).disk.Occupied absolutePath (tempPath absolutePath) := by
        rw [renamed_disk (hfaults _ _) (hfaults _ _)]
        exact Disk.replaced_stays_iff temp_suffix hway hstatus
      rw [hcheck.ne_exit_iff hfaults, hstays, renamed, World.rename_calls, removed,
        World.remove_calls]
      exact (and_iff_right ⟨hremove, hrename⟩).symm

/-- UPDATE calls `std::exit` exactly on the last chunk of a path that does not give way, or in
whose place it puts a directory that hashes otherwise and stays. -/
theorem updateTransfer_ne_exit_iff {env : Env} (hfaults : env.NoFaults) (w : World) (u : User)
    (dir : Dir) {view : TlvView} (hvalid : view.valid_ = true) (replies : MessageQueue)
    (path digest oldDigest : Bytes) :
    (updateTransfer env w u dir view replies path digest oldDigest).result ≠ .error .exitFailure ↔
      ∀ content, CanWrite env w u.id (tempPath (append dir.path path)) →
        view.value = .ok content → view.verifyEnd = .ok true →
        w.disk.GivesWay (append dir.path path) ∧
          ¬ (w.disk.Occupied (append dir.path path) (tempPath (append dir.path path)) ∧
            HashesOtherwise env (.rename (tempPath (append dir.path path)) (append dir.path path) ::
              .remove (append dir.path path) :: .openStream (tempPath (append dir.path path)) ::
                w.calls) (append dir.path path) path digest) := by
  refine (updateTransfer_ends env w u dir view replies path digest oldDigest).ne_exit_iff hvalid
    fun content hreplace => ?_
  -- The tree before the removal is the one after the open.
  have hnode := closed_written_node env (opened env w u.id (tempPath (append dir.path path)))
    u.id content false
  have hstatus : w.disk.GivesWay (append dir.path path) →
      (opened env w u.id (tempPath (append dir.path path))).disk.status
        (tempPath (append dir.path path)) ≠ none := by
    intro hway
    rw [opened_disk_of_noFaults hfaults]
    exact hway.openAppend_status temp_suffix
  rw [hreplace.ne_exit_iff hfaults, Disk.givesWay_of_node hnode, Disk.status_of_node hnode,
    Disk.occupied_of_node hnode, givesWay_opened, opened_occupied, closed, World.closed_calls,
    written_calls, opened, World.getStream_calls]
  exact and_congr_right fun hway => and_iff_right (hstatus hway)

/-- `handle_sync` never calls `std::exit`. -/
theorem handleSync_ne_exit (env : Env) (w : World) (u : User) (replies : MessageQueue) :
    (handleSync env w u replies).result ≠ .error .exitFailure := by
  unfold handleSync
  cases hdir : u.dirPtr with
  | error e => simp [attempt, halted, onlyUndefined_dirPtr u e hdir]
  | ok dir =>
      simp only [attempt]
      split
      · simp [answer]
      · split <;> simp [answer, halted]

/-- A request calls `std::exit` exactly when it is obstructed. Only transfers remove and rename
files without looking at the result but for this. -/
theorem neverExits_iff {env : Env} (hfaults : env.NoFaults) (w : World) (u : User) (m : Message) :
    NeverExits env w u m ↔ Unobstructed env w u m := by
  unfold NeverExits
  rw [handleRequest_eq_perform]
  have hvalid := @view_valid_of_task env u m
  have hstop := taskOf_ne_exit env u m
  -- A task that is no transfer has nothing that could be in the way.
  have hother : (∀ dir view replies path digest,
      taskOf env u m ≠ .create dir view replies path digest) →
      (∀ dir view replies path digest oldDigest,
        taskOf env u m ≠ .update dir view replies path digest oldDigest) →
      Unobstructed env w u m := fun hcreate hupdate =>
    ⟨fun _ _ _ _ _ _ htask => absurd htask (hcreate _ _ _ _ _),
      fun _ _ _ _ _ _ _ htask => absurd htask (hupdate _ _ _ _ _ _)⟩
  cases htask : taskOf env u m with
  | create dir view replies path digest =>
      rw [htask] at hvalid
      rw [perform, createTransfer_ne_exit_iff hfaults w u dir (hvalid rfl)]
      constructor
      · intro h
        refine ⟨?_, fun _ _ _ _ _ _ _ heq => absurd (htask.symm.trans heq) (by simp)⟩
        intro _ _ _ _ _ content heq
        cases htask.symm.trans heq
        exact h content
      · exact fun h content => h.create dir view replies path digest content htask
  | update dir view replies path digest oldDigest =>
      rw [htask] at hvalid
      rw [perform, updateTransfer_ne_exit_iff hfaults w u dir (hvalid rfl)]
      constructor
      · intro h
        refine ⟨fun _ _ _ _ _ _ heq => absurd (htask.symm.trans heq) (by simp), ?_⟩
        intro _ _ _ _ _ _ content heq
        cases htask.symm.trans heq
        exact h content
      · exact fun h content => h.update dir view replies path digest oldDigest content htask
  | stop e =>
      rw [htask] at hstop hother
      exact iff_of_true (by simpa [perform, halted] using hstop) (hother (by simp) (by simp))
  | sync replies =>
      rw [htask] at hother
      exact iff_of_true (handleSync_ne_exit env w u replies) (hother (by simp) (by simp))
  | refuse | keepAlive | authenticate =>
      rw [htask] at hother
      exact iff_of_true (by simp [perform, answer]) (hother (by simp) (by simp))
  | erase dir replies path =>
      rw [htask] at hother
      refine iff_of_true ?_ (hother (by simp) (by simp))
      simp only [perform, eraseEntry]
      split <;> simp [answer]

/-! ### Runs of the server -/

/-- Without faults, no request of a run calls `std::exit` exactly when none meets an
obstructed path, whatever the sessions are and in whatever order they send. -/
theorem never_exits_iff {env : Env} (hfaults : env.NoFaults) (s : Server) (es : List Event) :
    Along (Server.step env) (OnRequest (NeverExits env)) s es ↔
      Along (Server.step env) (OnRequest (Unobstructed env)) s es :=
  along_congr (along_of_forall (fun _ _ => trivial) _ _) fun s e _ =>
    onRequest_congr (neverExits_iff hfaults) s e

/-- `bobby` replaces the file `/a`, which he has stored. The declared digest is wrong, and the
process goes on, also where a directory shows a length. -/
theorem never_exits_update :
    Along (Server.step ((bobbyAndBobEnv [ahi, anew]).withDirectories 6))
      (OnRequest (NeverExits ((bobbyAndBobEnv [ahi, anew]).withDirectories 6))) bobbyStored
      [.request 0 (chunk .update (ascii "/a") (ascii "00") (ascii "new") true)] := by
  refine (never_exits_iff (fun _ _ => rfl) _ _).mpr ⟨?_, trivial⟩
  intro u _ hc
  obtain rfl : bobby [(ascii "/a", ⟨true, ascii "1D6677F1499CDF9D69169C4083605DE9"⟩)] = u :=
    Option.some.inj (Eq.trans (by decide +kernel) hc)
  have hsigns : Signed (chunk .update (ascii "/a") (ascii "00") (ascii "new") true) (ascii "/a")
      (ascii "00") := ⟨_, _, rfl, rfl, by decide +kernel⟩
  constructor
  · intro dir view replies path digest content htask
    obtain ⟨-, -, htype, -⟩ := passed_taskOf htask (by simp) (by simp)
    exact absurd htype (by decide)
  · intro dir view replies path digest oldDigest content htask _ _ _
    obtain ⟨-, -, -, hsigned, -, hdir, -⟩ := passed_taskOf htask (by simp) (by simp)
    obtain ⟨rfl, -⟩ := hsigned.unique hsigns
    obtain rfl := Option.some.inj hdir
    refine ⟨⟨by decide +kernel, ⟨⟨ascii "a", by decide⟩, by decide +kernel⟩,
      [⟨ascii "backup", by decide⟩, ⟨ascii "F5CEC4A9E67057735BC2B7577B80CB9D", by decide⟩,
        ⟨ascii "a", by decide⟩], by decide +kernel, fun h => absurd h (by decide +kernel)⟩, ?_⟩
    rintro ⟨⟨l, hl, hnode, -⟩, -⟩
    have hstatus := Disk.status_eq_some.mpr ⟨l, hl, hnode⟩
    exact absurd hstatus (by decide +kernel)

/-- A run without such a call does not leave the process ended by one. -/
theorem halt_of_neverExits {env : Env} {s : Server} {es : List Event}
    (h : Along (Server.step env) (OnRequest (NeverExits env)) s es)
    (hs : s.halt ≠ some .exitFailure) : (run (Server.step env) s es).halt ≠ some .exitFailure := by
  refine (invariant (I := fun s => s.halt ≠ some .exitFailure) hs (fun s e hs he => ?_) h).1
  have hstep := step_ends env s e
  generalize Server.step env s e = s' at hstep ⊢
  cases hstep with
  | idle => exact hs
  | accepted => exact hs
  | shut => exact hs
  | served c m u hhalt hc =>
      have hexit := he u hhalt hc
      unfold NeverExits at hexit
      simp only [Server.serve]
      cases hr : (handleRequest env s.world u m).result with
      | ok r => simp
      | error e =>
          rw [hr] at hexit
          simpa using hexit

/-- The MD5 digest of `/a/bhi`, which is that of a file `/a/b` with the content `hi`. -/
def abhi : Bytes × List UInt32 :=
  (ascii "/a/bhi", [0x29D8FD11, 0x50D19F6F, 0x1EA83E77, 0x2DE06276])

/-- `bobby` stores `/a`. In a second session he erases it and stores `/a/b`. -/
def bobbySecond : List Event :=
  bobbyLogin ++
    [.request 0 (chunk .create (ascii "/a") (ascii "1D6677F1499CDF9D69169C4083605DE9") (ascii "hi")
        true),
      .accept 1 false false (ascii "127.0.0.1"), .request 1 bobbyAuth,
      .request 1 (bareMessage .sync),
      .request 1 (encode MsgType.erase.toByte [(TlvType.item.toByte,
        createSign (ascii "/a") (ascii "1D6677F1499CDF9D69169C4083605DE9"))]),
      .request 1 (chunk .create (ascii "/a/b") (ascii "29D8FD1150D19F6F1EA83E772DE06276")
        (ascii "hi") true)]

/-- The first session still has `/a` in its view. Its UPDATE finds a directory that is not empty,
and ends the process. -/
theorem not_never_exits :
    (bobbyAndBobEnv [ahi, abhi]).NoFaults ∧
      ¬ Along (Server.step (bobbyAndBobEnv [ahi, abhi]))
        (OnRequest (NeverExits (bobbyAndBobEnv [ahi, abhi]))) (Server.start bobbyWorld)
        (bobbySecond ++
          [.request 0 (chunk .update (ascii "/a") (ascii "00") (ascii "new") true)]) :=
  ⟨Env.noFaults_ofTables _ _ _ _, fun h =>
    absurd (halt_of_neverExits h (by decide)) (by decide +kernel)⟩

end RemoteBackup.Proofs
