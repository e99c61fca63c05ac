import RemoteBackup.Proofs.ExitFree
import RemoteBackup.Proofs.Printing
import RemoteBackup.Proofs.Replies
import RemoteBackup.Utilities.Logger

/-!
# `RemoteBackup.Proofs.Exceptions`: what stops the serving of a request

No caller of `handle_request` catches an exception, and the log looks the type of a reply up
in a table that has only the types of the protocol. So a well-formed request is answered and
logged unless it is of a type that nothing knows, has a sign without a separator, an empty
password or no directory to go to, or makes the handler hash or remove what it cannot.

* `CheckEnds.returns_iff`, `ReplaceEnds.returns_iff`: when a last chunk is answered.
* `syncLoop_throws_iff`: the hash of an entry is what throws out of a SYNC.
* `perform_returns_iff`: a request that has passed the checks, one case for each task.
* `completes_iff`: all well-formed requests.
-/

set_option autoImplicit false

namespace RemoteBackup.Proofs

open Lib

/-- The request handler returns with a reply. -/
def Returns (o : Outcome) : Prop := ∃ r, o.result = .ok r

/-- An answer is a return. -/
@[simp] theorem returns_answer (w : World) (u : User) (replies : MessageQueue) (status : TlvType)
    (err : ErrType) : Returns (answer w u replies status err) := ⟨_, rfl⟩

/-- A process that has stopped has not returned. -/
@[simp] theorem not_returns_halted (w : World) (u : User) (h : Halt) :
    ¬ Returns (halted w u h) := by
  rintro ⟨r, hr⟩
  cases hr

/-- Serving one request completes: the request is printed, the request handler returns with a
reply, and `log_write` can name the type of the reply. Then the next request is read. -/
structure Completes (env : Env) (w : World) (u : User) (m : Message) : Prop where
  printed : ∃ text, m.printed = .ok (some text)
  logged : ∃ r, (handleRequest env w u m).result = .ok r ∧ ∀ connectionResult, ∃ line,
    logResult (handleRequest env w u m).user r.replies.msgType
      (if r.replies.verifyError then .err else .ok) connectionResult = .ok line

/-! ### The digest check -/

/-- The digest that `MD5_hash` makes of the path: that of a file which opens, or that of as many
zero bytes as a directory shows. -/
def HashesTo (env : Env) (w : World) (absolutePath path digest : Bytes) : Prop :=
  env.fails w.calls (.openRead absolutePath) = false ∧
    ((∃ bytes, w.disk.read absolutePath = some bytes ∧ md5HashString env (path ++ bytes) = digest) ∨
      w.disk.status absolutePath = some .dir ∧
        ∃ n, env.directoryLength w.calls absolutePath = some n ∧
          md5HashString env (path ++ List.replicate n 0) = digest)

/-- The hash returns exactly where the path gives a digest. -/
theorem md5Hash_ok_iff {env : Env} {w : World} {absolutePath path digest : Bytes} :
    (w.md5Hash env absolutePath path).2 = .ok digest ↔
      HashesTo env w absolutePath path digest := by
  unfold HashesTo
  constructor
  · intro h
    rcases w.md5Hash_cases env absolutePath path with hbad | ⟨bytes, hread, hok⟩ |
      ⟨hdir, n, hn, hok⟩
    · rw [h] at hbad
      cases hbad
    · have hfirst := World.md5Hash_of_read hread |>.symm.trans h
      split at hfirst
      · cases hfirst
      · rename_i hopens
        exact ⟨by simpa using hopens, Or.inl ⟨bytes, hread, Except.ok.inj hfirst⟩⟩
    · have hfirst := World.md5Hash_of_dir hdir hn |>.symm.trans h
      split at hfirst
      · cases hfirst
      · rename_i hopens
        exact ⟨by simpa using hopens, Or.inr ⟨hdir, n, hn, Except.ok.inj hfirst⟩⟩
  · rintro ⟨hopens, ⟨bytes, hread, rfl⟩ | ⟨hdir, n, hn, rfl⟩⟩
    · rw [World.md5Hash_of_read hread, if_neg (by simp [hopens])]
    · rw [World.md5Hash_of_dir hdir hn, if_neg (by simp [hopens])]

/-- The digest check gets to an answer: the path gives a digest, and it is the declared one or
what the path names can be removed. -/
def CheckReturns (env : Env) (w : World) (absolutePath path digest : Bytes) : Prop :=
  ∃ found, HashesTo env w absolutePath path found ∧ (found = digest ∨
    env.fails (.openRead absolutePath :: w.calls) (.remove absolutePath) = false ∧
      (w.disk.remove absolutePath).2 = true)

/-- The digest check of both handlers. -/
theorem CheckEnds.returns_iff {env : Env} {w : World} {u : User} {dir : Dir}
    {replies : MessageQueue} {absolutePath path digest : Bytes} {err : ErrType} {o : Outcome}
    (h : CheckEnds env w u dir replies absolutePath path digest err o) :
    Returns o ↔ CheckReturns env w absolutePath path digest := by
  have hremoves : ((checked w absolutePath).remove env absolutePath).2 = true ↔
      env.fails (.openRead absolutePath :: w.calls) (.remove absolutePath) = false ∧
        (w.disk.remove absolutePath).2 = true := remove_iff
  unfold CheckReturns
  simp only [← md5Hash_ok_iff, ← hremoves]
  cases h with
  | unreadable hread => simp [hread]
  | matching hread => simp [hread]
  | stuck found hread hne hremove => simp [hread, hne, hremove]
  | mismatch found hread hne hremove => simp [hread, hremove]

/-! ### Transfers -/

/-- The common part of the two handlers returns unless it is a last chunk. -/
theorem WriteEnds.returns_iff {env : Env} {w : World} {u : User} {dir : Dir} {view : TlvView}
    {replies : MessageQueue} {path digest early : Bytes} {target : Path} {flushed : Bool}
    {failed : ErrType} {Last : World → Outcome → Prop} {o : Outcome}
    (h : WriteEnds env w u dir view replies path digest early target flushed failed Last o)
    (hcontent : ∃ content, view.value = .ok content)
    (hend : ∃ isLast, view.verifyEnd = .ok isLast) {P : Bytes → Prop}
    (hlast : ∀ content, Last (written env (opened env w u.id target) u.id content flushed) o →
      (Returns o ↔ P content)) :
    Returns o ↔ ∀ content, CanWrite env w u.id target → view.value = .ok content →
      view.verifyEnd = .ok true → P content := by
  rw [← opened_usable_iff]
  obtain ⟨value, hvalue⟩ := hcontent
  obtain ⟨isLast, hisLast⟩ := hend
  cases h with
  | noStream husable => simp [husable]
  | badContent _ e hbad => exact absurd (hbad.symm.trans hvalue) (by simp)
  | badEnd _ _ _ e hbad => exact absurd (hbad.symm.trans hisLast) (by simp)
  | stored _ _ _ hend => simp [hend]
  | last husable content hcontent hend o h => simp [husable, hcontent, hend, hlast content h]

/-- A CREATE returns unless its last chunk fails the digest check badly. -/
theorem createTransfer_returns_iff {env : Env} {w : World} {u : User} {dir : Dir} {view : TlvView}
    (hcontent : ∃ content, view.value = .ok content)
    (hend : ∃ isLast, view.verifyEnd = .ok isLast) {replies : MessageQueue}
    {path digest : Bytes} :
    Returns (createTransfer env w u dir view replies path digest) ↔
      ∀ content, (w.createDirectories env (parentPath (append dir.path path))).2 = true →
        CanWrite env (created env w dir path) u.id (append dir.path path) →
        view.value = .ok content → view.verifyEnd = .ok true →
        CheckReturns env (closed (written env (opened env (created env w dir path) u.id
          (append dir.path path)) u.id content true) u.id) (append dir.path path) path digest := by
  have hends := createTransfer_ends env w u dir view replies path digest
  generalize createTransfer env w u dir view replies path digest = o at hends ⊢
  cases hends with
  | noParent hparent => simp [hparent]
  | hasParent hparent o hwrite =>
      rw [hwrite.returns_iff hcontent hend fun content h => h.returns_iff]
      simp [hparent]

/-- UPDATE gets as far as the digest check: neither call fails by itself, the path gives way and
the temporary file is there. -/
def Replaces (env : Env) (w : World) (p : Path) : Prop :=
  env.fails w.calls (.remove p) = false ∧
    env.fails (.remove p :: w.calls) (.rename (tempPath p) p) = false ∧
    w.disk.GivesWay p ∧ w.disk.status (tempPath p) ≠ none

/-- The block of UPDATE for the last chunk is answered exactly when it can put the new file in the
place of the old one, and the digest check is answered there. -/
theorem ReplaceEnds.returns_iff {env : Env} {u : User} {dir : Dir} {replies : MessageQueue}
    {absolutePath path digest : Bytes} {w : World} {o : Outcome}
    (h : ReplaceEnds env u dir replies absolutePath path digest w o) :
    Returns o ↔ Replaces env (closed w u.id) absolutePath ∧
      CheckReturns env (renamed env (closed w u.id) absolutePath) absolutePath path digest := by
  have hiff := @replaced_iff env (closed w u.id) absolutePath
  rw [← Replaces] at hiff
  cases h with
  | notRemoved hremove => simp [← hiff, hremove]
  | notRenamed hremove hrename => simp [← hiff, hrename]
  | replaced hremove hrename o hcheck =>
      rw [hcheck.returns_iff]
      simp [hiff.mp ⟨hremove, hrename⟩]

/-- An UPDATE returns unless its last chunk cannot replace the file, or fails the digest check
badly. -/
theorem updateTransfer_returns_iff {env : Env} {w : World} {u : User} {dir : Dir} {view : TlvView}
    (hcontent : ∃ content, view.value = .ok content)
    (hend : ∃ isLast, view.verifyEnd = .ok isLast) {replies : MessageQueue}
    {path digest oldDigest : Bytes} :
    Returns (updateTransfer env w u dir view replies path digest oldDigest) ↔
      ∀ content, CanWrite env w u.id (tempPath (append dir.path path)) →
        view.value = .ok content → view.verifyEnd = .ok true →
        Replaces env (opened env w u.id (tempPath (append dir.path path))) (append dir.path path) ∧
          CheckReturns env (renamed env (closed (written env (opened env w u.id
            (tempPath (append dir.path path))) u.id content false) u.id) (append dir.path path))
            (append dir.path path) path digest := by
  refine (updateTransfer_ends env w u dir view replies path digest oldDigest).returns_iff hcontent
    hend fun content h => ?_
  -- The write and the close change neither the entries of the tree nor the calls.
  have hnode := closed_written_node env (opened env w u.id (tempPath (append dir.path path)))
    u.id content false
  rw [h.returns_iff]
  unfold Replaces
  rw [Disk.givesWay_of_node hnode, Disk.status_of_node hnode, closed, World.closed_calls,
    written_calls]

/-! ### SYNC -/

/-- The entry is a regular file that does not open for reading. -/
def OpensNot (env : Env) (w : World) (p : Path) : Prop :=
  env.fails w.calls (.isRegularFile p) = false ∧ (∃ i, w.disk.status p = some (.file i)) ∧
    env.fails (.isRegularFile p :: w.calls) (.openRead p) = true

/-- Of an entry of the traversal, only the hash of a file that does not open throws. -/
theorem syncEntry_throws_iff {env : Env} {w : World} {dir : Dir} {replies : MessageQueue}
    {p : Path} :
    (syncEntry env w dir replies p).2.2.2 = .thrown .otherException ↔ OpensNot env w p := by
  unfold syncEntry OpensNot
  cases hfails : env.fails w.calls (.isRegularFile p) with
  | true => simp
  | false =>
      simp only [Bool.false_eq_true, if_false, World.record_disk, true_and]
      cases hstatus : w.disk.status p with
      | none => simp
      | some v =>
          cases v with
          | dir => simp
          | file i =>
              -- A regular file has bytes, so only a failing open can keep it from being read.
              have hread := Disk.read_eq_some.mpr ⟨i, hstatus, rfl⟩
              have hmd5 := @World.md5Hash_of_read env (w.record (.isRegularFile p)) p
                (p.drop dir.path.length) _ hread
              rw [World.record_calls] at hmd5
              simp only [Node.file.injEq, exists_eq', true_and, Option.some.injEq]
              generalize (w.record (.isRegularFile p)).md5Hash env p (p.drop dir.path.length) = read
                at hmd5 ⊢
              obtain ⟨w', result⟩ := read
              dsimp only at hmd5
              subst hmd5
              cases env.fails (.isRegularFile p :: w.calls) (.openRead p) with
              | true => simp
              | false =>
                  simp only [Bool.false_eq_true, if_false]
                  generalize dir.insertOrAssign env.hash _ _ = inserted
                  obtain ⟨dir', _ | _⟩ := inserted <;> simp

/-- The traversal gets to an entry that does not open. -/
def MeetsUnreadable (env : Env) (ps : List Path) (w : World) (dir : Dir) (replies : MessageQueue) :
    Prop :=
  ∃ pre p post w' dir' replies', ps = pre ++ p :: post ∧
    syncLoop env pre w dir replies = (w', dir', replies', .done) ∧ OpensNot env w' p

/-- An entry that does not open is the first one, or it comes behind a first one that lets
the traversal go on. -/
theorem meetsUnreadable_cons (env : Env) (p : Path) (ps : List Path) (w : World) (dir : Dir)
    (replies : MessageQueue) :
    MeetsUnreadable env (p :: ps) w dir replies ↔ OpensNot env w p ∨
      ∃ w1 dir1 replies1, syncEntry env w dir replies p = (w1, dir1, replies1, .done) ∧
        env.fails w1.calls (.advance p) = false ∧
        MeetsUnreadable env ps (w1.record (.advance p)) dir1 replies1 := by
  constructor
  · rintro ⟨pre, q, post, w', dir', replies', hps, hloop, hopens⟩
    cases pre with
    | nil =>
        obtain ⟨rfl, rfl⟩ := List.cons.inj hps
        cases hloop
        exact Or.inl hopens
    | cons a pre =>
        obtain ⟨rfl, rfl⟩ := List.cons.inj hps
        rw [syncLoop] at hloop
        split at hloop
        -- The traversal went on behind the first entry.
        · rename_i w1 dir1 replies1 hentry
          split at hloop
          · cases hloop
          · rename_i hadvance
            exact Or.inr ⟨w1, dir1, replies1, hentry, by simpa using hadvance,
              pre, q, post, w', dir', replies', rfl, hloop, hopens⟩
        · rename_i hnot
          exact absurd hloop (hnot w' dir' replies')
  · rintro (hopens | ⟨w1, dir1, replies1, hentry, hadvance, pre, q, post, w', dir', replies',
      rfl, hloop, hopens⟩)
    · exact ⟨[], p, ps, w, dir, replies, rfl, rfl, hopens⟩
    · refine ⟨p :: pre, q, post, w', dir', replies', rfl, ?_, hopens⟩
      rw [syncLoop, hentry]
      simp only [hadvance, Bool.false_eq_true, if_false]
      exact hloop

/-- Only the hash of an entry throws out of the traversal. Induction on the entries. -/
theorem syncLoop_throws_iff (env : Env) (ps : List Path) (w : World) (dir : Dir)
    (replies : MessageQueue) :
    (syncLoop env ps w dir replies).2.2.2 = .thrown .otherException ↔
      MeetsUnreadable env ps w dir replies := by
  induction ps generalizing w dir replies with
  | nil => simp [syncLoop, MeetsUnreadable]
  | cons p ps ih =>
      rw [meetsUnreadable_cons, ← @syncEntry_throws_iff env w dir replies p, syncLoop]
      cases hentry : syncEntry env w dir replies p with
      | mk w1 rest =>
          obtain ⟨dir1, replies1, _ | _ | t⟩ := rest
          · cases hadvance : env.fails w1.calls (.advance p) with
            | true => simp [hadvance]
            | false => simp [hadvance, ih]
          · simp
          · simp

/-- `handle_sync` is answered exactly when the session has a directory and the traversal meets no
entry that does not open. -/
theorem handleSync_returns_iff (env : Env) (w : World) (u : User) (replies : MessageQueue) :
    Returns (handleSync env w u replies) ↔ ∃ dir, u.dir = some dir ∧
      ∀ entries, iterate env w dir.path = some entries →
        ¬ MeetsUnreadable env entries (w.record (.iterate dir.path)) dir replies := by
  unfold handleSync
  cases hdir : u.dir with
  | none => simp [User.dirPtr, hdir, attempt]
  | some dir =>
      simp only [User.dirPtr, hdir, attempt, Option.some.injEq, exists_eq_left']
      cases hiterate : iterate env w dir.path with
      | none => simp
      | some entries =>
          simp only [Option.some.injEq, forall_eq', ← syncLoop_throws_iff]
          generalize syncLoop env entries (w.record (.iterate dir.path)) dir replies = r
          obtain ⟨w', dir', replies', _ | _ | _ | _⟩ := r <;> simp

/-! ### The type of the reply -/

/-- Every message type has a name. -/
theorem lookup_toByte (t : MsgType) : ∃ str, msgTypeStrMap.lookup t.toByte = some str := by
  cases t <;> exact ⟨_, rfl⟩

/-- And nothing else has. -/
theorem toByte_of_lookup {msgType : UInt8} {str : Bytes}
    (h : msgTypeStrMap.lookup msgType = some str) : ∃ t : MsgType, msgType = t.toByte := by
  obtain ⟨before, after, hmap, -⟩ := List.lookup_eq_some_iff.mp h
  have hmem : (msgType, str) ∈ msgTypeStrMap := by simp [hmap]
  simp only [msgTypeStrMap, List.mem_cons, List.not_mem_nil, or_false, Prod.mk.injEq] at hmem
  rcases hmem with ⟨rfl, -⟩ | ⟨rfl, -⟩ | ⟨rfl, -⟩ | ⟨rfl, -⟩ | ⟨rfl, -⟩ | ⟨rfl, -⟩ | ⟨rfl, -⟩ <;>
    exact ⟨_, rfl⟩

/-- The log has a name for the types of the protocol, and for no other byte. -/
theorem logResult_ok_iff {u : User} {msgType : UInt8}
    {messageResult connectionResult : ResultType} :
    (∃ line, logResult u msgType messageResult connectionResult = .ok line) ↔
      ∃ t : MsgType, msgType = t.toByte := by
  unfold logResult
  constructor
  · rintro ⟨line, hline⟩
    split at hline
    · exact toByte_of_lookup ‹_›
    · cases hline
  · rintro ⟨t, rfl⟩
    obtain ⟨str, hstr⟩ := lookup_toByte t
    rw [hstr]
    exact ⟨_, rfl⟩

/-- A reply has the type of its request. -/
theorem reply_msgType {env : Env} {w : World} {u : User} {m : Message} {r : Reply}
    (h : (handleRequest env w u m).result = .ok r) : m.msgType = some r.replies.msgType := by
  rw [handleRequest_eq_perform] at h
  obtain ⟨msgType, htype⟩ := msgType_of_answered h
  obtain ⟨items, hshaped, -⟩ := perform_shaped htype h
  obtain ⟨value, hcarries⟩ := hshaped.tlvs
  obtain ⟨m', hm'⟩ := List.exists_mem_of_ne_nil _ hshaped.ne_nil
  rw [htype, ← hshaped.msgTypes m' hm', hcarries.msgType hm']

/-! ### All requests -/

/-- What it takes for a well-formed request to be answered and logged. Its type is known. It is no
transfer with a sign without a separator, no login with an empty password, and no transfer of a
session without a directory. A last chunk that gets as far passes the digest check, and before it
the replacement when it is an UPDATE's. A SYNC has a directory, and meets no file that does not
open. -/
structure Servable (env : Env) (w : World) (u : User) (m : Message) : Prop where
  known : ∃ t : MsgType, m.msgType = some t.toByte
  sign : ¬ BadSign u m
  password : ¬ NoPassword u m
  home : ¬ Homeless u m
  create : ∀ dir view replies path digest content,
    taskOf env u m = .create dir view replies path digest →
    (w.createDirectories env (parentPath (append dir.path path))).2 = true →
    CanWrite env (created env w dir path) u.id (append dir.path path) →
    view.value = .ok content → view.verifyEnd = .ok true →
    CheckReturns env (closed (written env (opened env (created env w dir path) u.id
      (append dir.path path)) u.id content true) u.id) (append dir.path path) path digest
  update : ∀ dir view replies path digest oldDigest content,
    taskOf env u m = .update dir view replies path digest oldDigest →
    CanWrite env w u.id (tempPath (append dir.path path)) → view.value = .ok content →
    view.verifyEnd = .ok true →
    Replaces env (opened env w u.id (tempPath (append dir.path path))) (append dir.path path) ∧
      CheckReturns env (renamed env (closed (written env (opened env w u.id
        (tempPath (append dir.path path))) u.id content false) u.id) (append dir.path path))
        (append dir.path path) path digest
  sync : ∀ replies, taskOf env u m = .sync replies → ∃ dir, u.dir = some dir ∧
    ∀ entries, iterate env w dir.path = some entries →
      ¬ MeetsUnreadable env entries (w.record (.iterate dir.path)) dir replies

/-- A well-formed request whose type is known is answered exactly when it is servable. One case for
each task. -/
theorem handleRequest_returns_iff (env : Env) (w : World) (u : User) {m : Message}
    (hm : WellFormed m) (hknown : ∃ t : MsgType, m.msgType = some t.toByte) :
    Returns (handleRequest env w u m) ↔ Servable env w u m := by
  rw [handleRequest_eq_perform]
  have hstops := stops_taskOf_iff env u hm
  have hcontent := @content_of_task env u m hm
  have hfree : ¬ Stops (taskOf env u m) → ¬ BadSign u m ∧ ¬ NoPassword u m ∧ ¬ Homeless u m := by
    rw [hstops, not_or, not_or]
    exact id
  -- A task that is neither a transfer nor a SYNC is answered without a condition.
  have hother : ¬ Stops (taskOf env u m) →
      (∀ dir view replies path digest, taskOf env u m ≠ .create dir view replies path digest) →
      (∀ dir view replies path digest oldDigest,
        taskOf env u m ≠ .update dir view replies path digest oldDigest) →
      (∀ replies, taskOf env u m ≠ .sync replies) → Servable env w u m := by
    intro hnot hcreate hupdate hsync
    obtain ⟨hsign, hpassword, hhome⟩ := hfree hnot
    exact ⟨hknown, hsign, hpassword, hhome,
      fun _ _ _ _ _ _ htask => absurd htask (hcreate _ _ _ _ _),
      fun _ _ _ _ _ _ _ htask => absurd htask (hupdate _ _ _ _ _ _),
      fun _ htask => absurd htask (hsync _)⟩
  cases htask : taskOf env u m with
  | stop e =>
      refine iff_of_false (by simp [perform]) fun h => ?_
      rcases hstops.mp ⟨e, htask⟩ with hbad | hbad | hbad
      · exact h.sign hbad
      · exact h.password hbad
      · exact h.home hbad
  | create dir view replies path digest =>
      rw [htask] at hcontent hfree
      obtain ⟨hsign, hpassword, hhome⟩ := hfree (by simp [Stops])
      obtain ⟨hvalue, hend⟩ := hcontent rfl
      rw [perform, createTransfer_returns_iff hvalue hend]
      constructor
      · intro h
        refine ⟨hknown, hsign, hpassword, hhome, ?_, by simp [htask], by simp [htask]⟩
        intro _ _ _ _ _ content heq
        cases htask.symm.trans heq
        exact h content
      · exact fun h content => h.create dir view replies path digest content htask
  | update dir view replies path digest oldDigest =>
      rw [htask] at hcontent hfree
      obtain ⟨hsign, hpassword, hhome⟩ := hfree (by simp [Stops])
      obtain ⟨hvalue, hend⟩ := hcontent rfl
      rw [perform, updateTransfer_returns_iff hvalue hend]
      constructor
      · intro h
        refine ⟨hknown, hsign, hpassword, hhome, by simp [htask], ?_, by simp [htask]⟩
        intro _ _ _ _ _ _ content heq
        cases htask.symm.trans heq
        exact h content
      · exact fun h content => h.update dir view replies path digest oldDigest content htask
  | sync replies =>
      rw [htask] at hfree
      obtain ⟨hsign, hpassword, hhome⟩ := hfree (by simp [Stops])
      rw [perform, handleSync_returns_iff]
      constructor
      · intro h
        refine ⟨hknown, hsign, hpassword, hhome, by simp [htask], by simp [htask], ?_⟩
        intro _ heq
        cases htask.symm.trans heq
        exact h
      · exact fun h => h.sync replies htask
  | refuse | keepAlive | authenticate =>
      rw [htask] at hother
      exact iff_of_true (by simp [perform]) (hother (by simp [Stops]) (by simp) (by simp) (by simp))
  | erase dir replies path =>
      rw [htask] at hother
      refine iff_of_true ?_ (hother (by simp [Stops]) (by simp) (by simp) (by simp))
      rw [perform, eraseEntry]
      dsimp only
      split <;> simp

/-- A reply has the type of its request, so the log knows the one as it knows the other. -/
theorem completes_iff (env : Env) (w : World) (u : User) {m : Message} (hm : WellFormed m) :
    Completes env w u m ↔ Servable env w u m := by
  constructor
  · rintro ⟨-, r, hr, hlogged⟩
    obtain ⟨t, ht⟩ := logResult_ok_iff.mp (hlogged .ok)
    refine (handleRequest_returns_iff env w u hm ⟨t, ?_⟩).mp ⟨r, hr⟩
    rw [reply_msgType hr, ht]
  · intro h
    obtain ⟨r, hr⟩ := (handleRequest_returns_iff env w u hm h.known).mpr h
    obtain ⟨t, ht⟩ := h.known
    refine ⟨?_, r, hr, fun connectionResult => logResult_ok_iff.mpr ⟨t, ?_⟩⟩
    · obtain ⟨msgType, tlvs, hlens, rfl⟩ := hm
      exact ⟨_, printed_encode msgType hlens⟩
    · exact Option.some.inj ((reply_msgType hr).symm.trans ht)

/-- In every run of the server, serving completes for every well-formed request exactly when every
well-formed request is servable. -/
theorem serving_completes_iff (env : Env) (s : Server) (es : List Event) :
    Along (Server.step env) (OnRequest fun w u m => WellFormed m → Completes env w u m) s es ↔
      Along (Server.step env) (OnRequest fun w u m => WellFormed m → Servable env w u m) s es :=
  along_congr (along_of_forall (fun _ _ => trivial) _ _) fun s e _ =>
    onRequest_congr (fun w u _ => imp_congr_right fun hm => completes_iff env w u hm) s e

/-- A CREATE whose ITEM has no separator. -/
def unsigned : Message :=
  encode MsgType.create.toByte [(TlvType.item.toByte, ascii "a"), (TlvType.content.toByte, []),
    (TlvType.end_.toByte, [])]

/-- A message of a type that the protocol does not have. -/
def untyped : Message := encode 200 [(TlvType.end_.toByte, [])]

/-- After `bobby`'s login a CREATE without a separator throws out of the server. The first
request of a connection, of an unknown type, is answered, and the log has no name for it. -/
theorem not_serving_completes :
    ¬ Along (Server.step (bobbyAndBobEnv []))
        (OnRequest fun w u m => WellFormed m → Completes (bobbyAndBobEnv []) w u m)
        (Server.start bobbyWorld) (bobbyLogin ++ [.request 0 unsigned]) ∧
      ¬ Along (Server.step (bobbyAndBobEnv []))
        (OnRequest fun w u m => WellFormed m → Completes (bobbyAndBobEnv []) w u m)
        (Server.start bobbyWorld)
        ([.accept 0 false false (ascii "127.0.0.1")] ++ [.request 0 untyped]) := by
  constructor
  · intro h
    have hcompletes : Completes _ _ (bobby []) unsigned :=
      (along_iff _ _ _).mp h _ _ [] rfl _ (by decide +kernel) (by decide +kernel)
        ⟨_, _, by decide +kernel, rfl⟩
    obtain ⟨-, r, hr, -⟩ := hcompletes
    have hbad : BadSign (bobby []) unsigned :=
      ⟨_, _, rfl, rfl, Or.inl rfl, rfl, ascii "a", rfl, by decide⟩
    rw [handleRequest_eq_perform, (taskOf_stop_iff _ _ _ (by simp)).mpr ⟨rfl, hbad⟩] at hr
    cases hr
  · intro h
    have hcompletes : Completes _ _ (User.fresh false false (ascii "127.0.0.1")) untyped :=
      (along_iff _ _ _).mp h _ _ [] rfl _ (by decide +kernel) (by decide +kernel)
        ⟨_, _, by decide +kernel, rfl⟩
    obtain ⟨-, r, hr, hlogged⟩ := hcompletes
    obtain ⟨t, ht⟩ := logResult_ok_iff.mp (hlogged .ok)
    have htype := reply_msgType hr
    rw [ht] at htype
    cases t <;> exact absurd htype (by decide)

end RemoteBackup.Proofs
