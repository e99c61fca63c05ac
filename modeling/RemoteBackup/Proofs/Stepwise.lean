import RemoteBackup.Core.Stepwise
import RemoteBackup.Proofs.Transfers

/-!
# `RemoteBackup.Proofs.Stepwise`: one call at a time, and the request as a whole

A handler whose calls follow each other without another thread in between does what
`RemoteBackup.Core.RequestHandler` says of the request. `runsTo_handleRequest` is the result; the
lemmas before it are one for each part of a handler.
-/

set_option autoImplicit false

namespace RemoteBackup.Proofs

open Lib Stepwise

variable {env : Env} {w : World} {u : User}

/-- A handler that runs alone ends like this outcome. -/
def RunsTo (env : Env) (w : World) (p : Handler) (o : Outcome) : Prop :=
  p.run (exec env) w = (o.world, o.user, o.result)

/-- An answer makes no call. -/
theorem runsTo_answer (u : User) (replies : MessageQueue) (status : TlvType) (err : ErrType) :
    RunsTo env w (Stepwise.answer u replies status err) (answer w u replies status err) := rfl

/-- To stop makes no call. -/
theorem runsTo_halted (u : User) (h : Halt) :
    RunsTo env w (Stepwise.halted u h) (halted w u h) := rfl

/-- A step that can stop the process, and what follows it. -/
theorem runsTo_attempt {α : Type} {x : Except Halt α} {k : α → Handler} {k' : α → Outcome}
    (h : ∀ a, RunsTo env w (k a) (k' a)) :
    RunsTo env w (Stepwise.attempt u x k) (attempt w u x k') := by
  cases x with
  | ok a => exact h a
  | error e => exact runsTo_halted u e

/-- The first call is made, and the rest runs in the world that it leaves. -/
theorem runsTo_call {c : Call} {next : c.Answer → Handler} {o : Outcome} {w1 : World}
    {a : c.Answer} (hexec : exec env c w = (w1, a)) (h : RunsTo env w1 (next a) o) :
    RunsTo env w (.call c next) o := by
  rw [RunsTo, Prog.run_call, hexec]
  exact h

/-- The calls of a first part, and then those of the rest. -/
theorem runsTo_bind {α : Type} {p : Program α} {f : α → Handler} {o : Outcome} {w1 : World} {a : α}
    (hp : p.run (exec env) w = (w1, a)) (h : RunsTo env w1 (f a) o) :
    RunsTo env w (p.bind f) o := by
  rw [RunsTo, Prog.run_bind, hp]
  exact h

/-! ### SYNC -/

/-- An entry of the traversal, call by call. -/
theorem run_syncEntry (dir : Dir) (replies : MessageQueue) (p : Path) :
    (Stepwise.syncEntry env dir replies p).run (exec env) w = syncEntry env w dir replies p := by
  unfold Stepwise.syncEntry syncEntry
  rw [Prog.run_call]
  simp only [exec, regular]
  cases hfails : env.fails w.calls (.isRegularFile p) with
  | true => rfl
  | false =>
      simp only [Bool.false_eq_true, if_false, World.record_disk]
      rcases w.disk.status p with _ | _ | i
      · rfl
      · rfl
      · dsimp only
        rw [Prog.run_call]
        simp only [exec]
        generalize (w.record (.isRegularFile p)).md5Hash env p (p.drop dir.path.length) = read
        obtain ⟨w1, t | digest⟩ := read
        · rfl
        · dsimp only
          generalize dir.insertOrAssign env.hash (p.drop dir.path.length) ⟨true, digest⟩ = inserted
          obtain ⟨dir', _ | _⟩ := inserted <;> rfl

/-- Induction on the entries still to come. -/
theorem run_syncLoop (ps : List Path) (dir : Dir) (replies : MessageQueue) :
    (Stepwise.syncLoop env ps dir replies).run (exec env) w = syncLoop env ps w dir replies := by
  induction ps generalizing w dir replies with
  | nil => rfl
  | cons p ps ih =>
      unfold Stepwise.syncLoop syncLoop
      rw [Prog.run_bind, run_syncEntry]
      generalize syncEntry env w dir replies p = entry
      obtain ⟨w1, dir', replies', _ | _ | t⟩ := entry
      · dsimp only
        rw [Prog.run_call]
        simp only [exec]
        cases hfails : env.fails w1.calls (.advance p) with
        | true => rfl
        | false => exact ih dir' replies'
      · rfl
      · rfl

/-- `handle_sync`, call by call. -/
theorem runsTo_handleSync (u : User) (replies : MessageQueue) :
    RunsTo env w (Stepwise.handleSync env u replies) (handleSync env w u replies) := by
  refine runsTo_attempt fun dir => ?_
  refine runsTo_call rfl ?_
  dsimp only
  generalize iterate env w dir.path = entries
  cases entries with
  | none => exact runsTo_answer _ _ _ _
  | some entries =>
      dsimp only
      have hloop := @run_syncLoop env (w.record (.iterate dir.path)) entries dir replies
      generalize syncLoop env entries (w.record (.iterate dir.path)) dir replies = loop at hloop ⊢
      obtain ⟨w1, dir', replies', _ | _ | _ | _⟩ := loop
      · exact runsTo_bind hloop (runsTo_answer _ _ _ _)
      · exact runsTo_bind hloop (runsTo_answer _ _ _ _)
      · exact runsTo_bind hloop (runsTo_answer _ _ _ _)
      · exact runsTo_bind hloop (runsTo_halted _ _)

/-! ### CREATE and UPDATE -/

/-- To look at a stream changes nothing. -/
theorem exec_usable {id : Bytes} {b : Bool} (h : w.usable id = b) :
    exec env (.usable id) w = (w, b) := by
  rw [exec, h]

/-- The digest check, call by call. -/
theorem runsTo_checkDigest (dir : Dir) (replies : MessageQueue) (absolutePath path : Path)
    (digest : Bytes) (noMatch failed : ErrType) :
    RunsTo env w
      (Stepwise.checkDigest env u dir replies absolutePath path digest noMatch failed)
      (Proofs.checkDigest env w u dir replies absolutePath path digest noMatch failed) := by
  unfold Proofs.checkDigest
  rcases hread : w.md5Hash env absolutePath path with ⟨w1, (_ | _) | sDigest⟩
  · refine runsTo_call hread ?_
    dsimp only
    rcases hremove : w1.remove env absolutePath with ⟨w2, _ | _⟩
    · exact runsTo_call hremove (runsTo_halted _ _)
    · exact runsTo_call hremove (runsTo_answer _ _ _ _)
  · exact runsTo_call hread (runsTo_halted _ _)
  · refine runsTo_call hread ?_
    dsimp only
    by_cases hdigest : sDigest = digest
    · rw [if_neg (not_not_intro hdigest), if_neg (not_not_intro hdigest)]
      exact runsTo_answer _ _ _ _
    · rw [if_pos hdigest, if_pos hdigest]
      rcases hremove : w1.remove env absolutePath with ⟨w2, _ | _⟩
      · exact runsTo_call hremove (runsTo_halted _ _)
      · exact runsTo_call hremove (runsTo_answer _ _ _ _)

/-- `handle_create` from the parent directories on, call by call. -/
theorem runsTo_createTransfer (dir : Dir) (view : TlvView) (replies : MessageQueue) (path : Path)
    (digest : Bytes) :
    RunsTo env w (Stepwise.createTransfer env u dir view replies path digest)
      (createTransfer env w u dir view replies path digest) := by
  unfold createTransfer
  dsimp only
  rcases hmake : w.createDirectories env (parentPath (append dir.path path)) with ⟨w1, _ | _⟩
  · exact runsTo_call hmake (runsTo_answer _ _ _ _)
  refine runsTo_call hmake ?_
  dsimp only
  rcases hget : w1.getStream env u.id (append dir.path path) with ⟨w2, isFirst⟩
  refine runsTo_call hget ?_
  dsimp only
  cases husable : w2.usable u.id with
  | false => exact runsTo_call (exec_usable husable) (runsTo_answer _ _ _ _)
  | true =>
      refine runsTo_call (exec_usable husable) (runsTo_attempt fun content => ?_)
      refine runsTo_call rfl (runsTo_call rfl (runsTo_attempt fun isLast => ?_))
      cases isLast with
      | false => exact runsTo_answer _ _ _ _
      | true => exact runsTo_call rfl (runsTo_call rfl (runsTo_checkDigest _ _ _ _ _ _ _))

/-- The last chunk of an UPDATE, call by call. -/
theorem runsTo_updateFinish (dir : Dir) (replies : MessageQueue)
    (absolutePath tempPath path : Path) (digest : Bytes) :
    RunsTo env w (Stepwise.updateFinish env u dir replies absolutePath tempPath path digest)
      (updateFinish env w u dir replies absolutePath tempPath path digest) := by
  refine runsTo_call rfl (runsTo_call rfl ?_)
  unfold updateFinish
  dsimp only
  rcases hremove : ((w.close u.id).eraseStream u.id).remove env absolutePath with ⟨w1, _ | _⟩
  · exact runsTo_call hremove (runsTo_halted _ _)
  refine runsTo_call hremove ?_
  dsimp only
  rcases hrename : w1.rename env tempPath absolutePath with ⟨w2, _ | _⟩
  · exact runsTo_call hrename (runsTo_halted _ _)
  · exact runsTo_call hrename (runsTo_checkDigest _ _ _ _ _ .updateNoMatch .updateFailed)

/-- `handle_update` from the opening of the stream on, call by call. -/
theorem runsTo_updateTransfer (dir : Dir) (view : TlvView) (replies : MessageQueue) (path : Path)
    (digest oldDigest : Bytes) :
    RunsTo env w (Stepwise.updateTransfer env u dir view replies path digest oldDigest)
      (updateTransfer env w u dir view replies path digest oldDigest) := by
  unfold updateTransfer
  dsimp only
  rcases hget : w.getStream env u.id (tempPath (append dir.path path)) with ⟨w1, isFirst⟩
  refine runsTo_call hget ?_
  dsimp only
  cases husable : w1.usable u.id with
  | false => exact runsTo_call (exec_usable husable) (runsTo_answer _ _ _ _)
  | true =>
      refine runsTo_call (exec_usable husable) (runsTo_attempt fun content => ?_)
      refine runsTo_call rfl (runsTo_attempt fun isLast => ?_)
      cases isLast with
      | false => exact runsTo_answer _ _ _ _
      | true => exact runsTo_updateFinish _ _ _ _ _ _

/-! ### ERASE -/

/-- Induction on the rounds. -/
theorem run_cleanup (dirPath : Path) (fuel : Nat) (tmp : Path) :
    (Stepwise.cleanup dirPath fuel tmp).run (exec env) w =
      (cleanup env dirPath fuel w tmp, ()) := by
  induction fuel generalizing w tmp with
  | zero => rfl
  | succ fuel ih =>
      unfold Stepwise.cleanup cleanup
      by_cases hat : elements tmp = elements dirPath
      · rw [if_pos hat, if_pos hat]
        rfl
      · rw [if_neg hat, if_neg hat, Prog.run_call]
        simp only [exec]
        generalize w.isEmpty env tmp = looked
        obtain ⟨w1, _ | _ | _⟩ := looked
        · rfl
        · rfl
        · dsimp only
          rw [Prog.run_call]
          simp only [exec]
          generalize w1.remove env tmp = gone
          obtain ⟨w2, _ | _⟩ := gone
          · rfl
          · exact ih (parentPath tmp)

/-- `handle_erase`, call by call. -/
theorem runsTo_eraseEntry (dir : Dir) (replies : MessageQueue) (path : Path) :
    RunsTo env w (Stepwise.eraseEntry env u dir replies path)
      (eraseEntry env w u dir replies path) := by
  unfold eraseEntry
  dsimp only
  rcases hremove : w.remove env (append dir.path path) with ⟨w1, _ | _⟩
  · exact runsTo_call hremove (runsTo_answer _ _ _ _)
  · refine runsTo_call hremove ?_
    dsimp only
    generalize dir.erase env.hash path = erased
    exact runsTo_bind (run_cleanup dir.path _ _) (runsTo_answer _ _ _ _)

/-! ### Requests -/

/-- A request whose calls are made without another thread in between is the request as a whole. -/
theorem runsTo_handleRequest (env : Env) (w : World) (u : User) (m : Message) :
    RunsTo env w (Stepwise.handleRequest env u m) (handleRequest env w u m) := by
  rw [handleRequest_eq_perform, Stepwise.handleRequest]
  cases taskOf env u m with
  | stop h => exact runsTo_halted u h
  | refuse replies err => exact runsTo_answer u replies _ _
  | keepAlive replies => exact runsTo_answer u replies _ _
  | authenticate username replies => exact runsTo_answer _ replies _ _
  | sync replies => exact runsTo_handleSync u replies
  | create dir view replies path digest => exact runsTo_createTransfer dir view replies path digest
  | update dir view replies path digest oldDigest =>
      exact runsTo_updateTransfer dir view replies path digest oldDigest
  | erase dir replies path => exact runsTo_eraseEntry dir replies path

end RemoteBackup.Proofs
