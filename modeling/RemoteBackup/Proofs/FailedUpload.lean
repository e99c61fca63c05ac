import RemoteBackup.Proofs.Acknowledged
import RemoteBackup.Proofs.ExitFree

/-!
# `RemoteBackup.Proofs.FailedUpload`: the stream that a failed upload leaves behind

`get_stream` puts a new stream into the table before anything looks at whether it opened. All
other error exits of CREATE and UPDATE lie before the insertion or behind `erase_stream`.

* `WriteEnds.leaves_none_iff`: the common part of the two handlers, which leaves a stream with an
  ERROR only when the target did not open.
* `failed_upload_clean_iff`: the same for requests.
* `WriteEnds.refused_of_dead`: a stream that did not open answers every later upload.
-/

set_option autoImplicit false

namespace RemoteBackup.Proofs

open Lib

/-- An ERROR of the request leaves the user without a stream. -/
def LeavesNoStream (id : Bytes) (o : Outcome) : Prop :=
  ∀ err, o.Answered .error err → o.world.streams id = none

/-- The request gets no further than its checks and its parent directories, or its target
opens. -/
def TargetOpens (env : Env) (w : World) (u : User) (m : Message) : Prop :=
  match taskOf env u m with
  | .create dir _ _ path _ =>
      (w.createDirectories env (parentPath (append dir.path path))).2 = true →
        ((created env w dir path).openStream env (append dir.path path)).2 ≠ none
  | .update dir _ _ path _ _ => (w.openStream env (tempPath (append dir.path path))).2 ≠ none
  | _ => True

/-- A user without a stream gets one that can be used exactly when the target opens. -/
theorem opened_usable_iff_opens {env : Env} {w : World} {id : Bytes} (hnone : w.streams id = none)
    (target : Path) :
    (opened env w id target).usable id = true ↔ (w.openStream env target).2 ≠ none := by
  rw [opened_usable_iff, CanWrite, hnone]
  unfold World.openStream
  cases env.fails w.calls (.openStream target) with
  | true => simp
  | false => simp [Option.isSome_iff_ne_none]

/-- An opened stream is in the table, whether it can be used or not. -/
theorem opened_streams_ne_none (env : Env) (w : World) (id : Bytes) (target : Path) :
    (opened env w id target).streams id ≠ none := by
  rcases w.getStream_cases env id target with ⟨hsome, -, hstreams⟩ | ⟨-, -, hstreams⟩
  · rw [opened, hstreams]
    exact hsome
  · rw [opened, hstreams, Function.update_self]
    simp

/-- For a user without a stream, a failed write leaves none exactly when its target opens. -/
theorem WriteEnds.leaves_none_iff {env : Env} {w : World} {u : User} {dir : Dir} {view : TlvView}
    {replies : MessageQueue} {path digest early : Bytes} {target : Path} {flushed : Bool}
    {failed : ErrType} {Last : World → Outcome → Prop} {o : Outcome}
    (h : WriteEnds env w u dir view replies path digest early target flushed failed Last o)
    (hnone : w.streams u.id = none)
    (hlast : ∀ w o, Last w o → o.world.streams = (closed w u.id).streams) :
    LeavesNoStream u.id o ↔ (w.openStream env target).2 ≠ none := by
  rw [← opened_usable_iff_opens hnone]
  cases h with
  | noStream husable =>
      -- The stream that did not open stays.
      refine iff_of_false (fun hleaves => ?_) (by simp [husable])
      exact opened_streams_ne_none env w u.id target (hleaves failed ⟨_, rfl, rfl, rfl⟩)
  | badContent husable =>
      exact iff_of_true (fun err herr => absurd herr not_answered_halted) husable
  | badEnd husable =>
      exact iff_of_true (fun err herr => absurd herr not_answered_halted) husable
  | stored husable =>
      refine iff_of_true (fun err herr => ?_) husable
      exact absurd (answered_answer_iff.mp herr).1 (by simp)
  | last husable content _ _ _ hl =>
      refine iff_of_true (fun err _ => ?_) husable
      rw [hlast _ _ hl, closed_streams_self]

/-- What becomes of a stream that did not open: every later upload of the session that gets to its
target is turned down, and the stream stays. -/
theorem WriteEnds.refused_of_dead {env : Env} {w : World} {u : User} {dir : Dir} {view : TlvView}
    {replies : MessageQueue} {path digest early : Bytes} {target : Path} {flushed : Bool}
    {failed : ErrType} {Last : World → Outcome → Prop} {o : Outcome}
    (h : WriteEnds env w u dir view replies path digest early target flushed failed Last o)
    (hdead : ∃ pending, w.streams u.id = some ⟨none, pending⟩) :
    o.Answered .error failed ∧ o.world.streams = w.streams := by
  obtain ⟨pending, hstream⟩ := hdead
  have hunusable : (opened env w u.id target).usable u.id = false := by
    rw [← Bool.not_eq_true, opened_usable_iff, CanWrite, hstream]
    simp
  cases h with
  | noStream =>
      refine ⟨⟨_, rfl, rfl, rfl⟩, ?_⟩
      rcases w.getStream_cases env u.id target with ⟨-, -, hstreams⟩ | ⟨hnone, -, -⟩
      · exact hstreams
      · rw [hstream] at hnone
        exact absurd hnone (by simp)
  | badContent husable => rw [hunusable] at husable; exact absurd husable (by simp)
  | badEnd husable => rw [hunusable] at husable; exact absurd husable (by simp)
  | stored husable => rw [hunusable] at husable; exact absurd husable (by simp)
  | last husable => rw [hunusable] at husable; exact absurd husable (by simp)

/-- A request that makes no transfer leaves the table as it is. -/
theorem leavesNoStream_of_streams {id : Bytes} {o : Outcome} {w : World}
    (hnone : w.streams id = none) (h : o.world.streams = w.streams) : LeavesNoStream id o :=
  fun _ _ => by rw [h, hnone]

/-- **A failed upload leaves no stream behind, if its target opens.** For every state in which the
user has no stream, and every request. -/
theorem failed_upload_clean_iff {env : Env} {w : World} {u : User} (hnone : w.streams u.id = none)
    (m : Message) :
    LeavesNoStream u.id (handleRequest env w u m) ↔ TargetOpens env w u m := by
  rw [handleRequest_eq_perform]
  unfold TargetOpens
  cases taskOf env u m with
  | create dir view replies path digest =>
      have hends := createTransfer_ends env w u dir view replies path digest
      rw [perform]
      generalize createTransfer env w u dir view replies path digest = o at hends ⊢
      cases hends with
      | noParent hparent =>
          refine iff_of_true ?_ (by simp [hparent])
          exact leavesNoStream_of_streams hnone (World.createDirectories_streams env w _)
      | hasParent hparent _ hwrite =>
          -- The directories are made before the stream table is looked at.
          have hnone' : (created env w dir path).streams u.id = none := by
            rw [created, World.createDirectories_streams, hnone]
          rw [hwrite.leaves_none_iff hnone' fun w o hcheck => hcheck.streams]
          simp [hparent]
  | update dir view replies path digest oldDigest =>
      exact (updateTransfer_ends env w u dir view replies path digest oldDigest).leaves_none_iff
        hnone fun w o hreplace => hreplace.streams
  | stop | refuse | keepAlive | authenticate =>
      exact iff_of_true (leavesNoStream_of_streams hnone rfl) trivial
  | sync replies =>
      exact iff_of_true
        (leavesNoStream_of_streams hnone (handleSync_user env w u replies).2.1) trivial
  | erase dir replies path =>
      exact iff_of_true
        (leavesNoStream_of_streams hnone (eraseEntry_streams env w u dir replies path)) trivial

/-- `bobby` sends a CREATE of the empty path, which opens nothing. He sends one of `/a` with a wrong
digest: it is answered ERROR as well, and it leaves no stream. -/
theorem failed_upload_clean_iff_bobby :
    (LeavesNoStream (bobby []).id (handleRequest (bobbyAndBobEnv []) bobbyWorld (bobby [])
        (chunk .create [] (ascii "00") (ascii "hi") true)) ↔
      TargetOpens (bobbyAndBobEnv []) bobbyWorld (bobby [])
        (chunk .create [] (ascii "00") (ascii "hi") true)) ∧
      (handleRequest (bobbyAndBobEnv []) bobbyWorld (bobby [])
        (chunk .create (ascii "/a") (ascii "00") (ascii "hi") true)).Answered .error
          .createNoMatch ∧
      LeavesNoStream (bobby []).id (handleRequest (bobbyAndBobEnv []) bobbyWorld (bobby [])
        (chunk .create (ascii "/a") (ascii "00") (ascii "hi") true)) := by
  refine ⟨failed_upload_clean_iff rfl _, by decide +kernel, ?_⟩
  refine (failed_upload_clean_iff rfl _).mpr fun _ => ?_
  decide +kernel

/-- `bobby`'s session when it is synced. -/
def bobbyReady : Server :=
  run (Server.step (bobbyAndBobEnv [ahi])) (Server.start bobbyWorld) bobbyLogin

/-- The empty path names `bobby`'s own directory, which does not open as a file. The stream stays,
and a CREATE of `/a` behind it is turned down. -/
theorem not_failed_upload_clean :
    bobbyReady.sessions 0 = some (bobby []) ∧ bobbyReady.world.streams (bobby []).id = none ∧
      ¬ LeavesNoStream (bobby []).id (handleRequest (bobbyAndBobEnv [ahi]) bobbyReady.world
        (bobby []) (chunk .create [] (ascii "00") (ascii "hi") true)) ∧
      (handleRequest (bobbyAndBobEnv [ahi]) (handleRequest (bobbyAndBobEnv [ahi]) bobbyReady.world
          (bobby []) (chunk .create [] (ascii "00") (ascii "hi") true)).world
        (bobby []) storeA).Answered .error .createFailed := by
  refine ⟨by decide +kernel, by decide +kernel, fun hleaves => ?_, by decide +kernel⟩
  have hstays := hleaves .createFailed (by decide +kernel)
  revert hstays
  decide +kernel

end RemoteBackup.Proofs
