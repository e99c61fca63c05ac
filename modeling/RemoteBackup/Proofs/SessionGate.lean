import RemoteBackup.Proofs.Credentials
import RemoteBackup.Proofs.Transfers

/-!
# `RemoteBackup.Proofs.SessionGate`: who gets past AUTH and SYNC

What a request does to a session, and what this means for the order of the requests of one
connection.

* `perform_sameSession`: a request that passes neither an AUTH nor a SYNC changes nothing of
  its session but the entries of the view. `handleSync_user` is the step of a SYNC.
* `flags_step`, `flags_run`: a flag that a session did not start with was set by a request
  answered OK. Induction on the run, with `FlagsEarned` as the invariant.
* `session_gate_iff`: the gate holds in every run of a new connection when its memory held
  two false flags, and for no other memory.
-/

set_option autoImplicit false

namespace RemoteBackup.Proofs

open Lib

/-! ### One request and its session -/

/-- The session changes at most the entries of its view. -/
def SameSession (u u' : User) : Prop :=
  ∃ dir, u' = { u with dir := dir } ∧ dir.map Dir.path = u.dir.map Dir.path

/-- A session is the same as itself. -/
theorem SameSession.refl (u : User) : SameSession u u := ⟨u.dir, rfl, rfl⟩

/-- A change of the view leaves the session the same. -/
theorem SameSession.of_dir {u : User} {dir dir' : Dir} (hdir : u.dir = some dir)
    (hpath : dir'.path = dir.path) : SameSession u { u with dir := some dir' } :=
  ⟨some dir', rfl, by rw [hdir, Option.map_some, Option.map_some, hpath]⟩

/-- The digest check changes the view at most. -/
theorem CheckEnds.sameSession {env : Env} {w : World} {u : User} {dir dir' : Dir}
    {replies : MessageQueue} {absolutePath path : Path} {digest : Bytes} {err : ErrType}
    {o : Outcome} (hdir : u.dir = some dir) (hpath : dir'.path = dir.path)
    (h : CheckEnds env w u dir' replies absolutePath path digest err o) :
    SameSession u o.user := by
  cases h with
  | unreadable => exact .of_dir hdir hpath
  | matching => exact .of_dir hdir hpath
  | stuck => exact .of_dir hdir hpath
  | mismatch => exact .of_dir hdir hpath

/-- So does the common part of the two transfers. -/
theorem WriteEnds.sameSession {env : Env} {w : World} {u : User} {dir : Dir} {view : TlvView}
    {replies : MessageQueue} {path digest early : Bytes} {target : Path} {flushed : Bool}
    {failed : ErrType} {Last : World → Outcome → Prop} {o : Outcome} (hdir : u.dir = some dir)
    (hlast : ∀ w o, Last w o → SameSession u o.user)
    (h : WriteEnds env w u dir view replies path digest early target flushed failed Last o) :
    SameSession u o.user := by
  cases h with
  | noStream => exact .refl u
  | badContent => exact .refl u
  | badEnd => exact .refl u
  | stored => exact .of_dir hdir (noteChunk_path env dir path _)
  | last _ _ _ _ _ h => exact hlast _ _ h

/-- A CREATE changes the view at most. -/
theorem CreateEnds.sameSession {env : Env} {w : World} {u : User} {dir : Dir} {view : TlvView}
    {replies : MessageQueue} {path digest : Bytes} {o : Outcome} (hdir : u.dir = some dir)
    (h : CreateEnds env w u dir view replies path digest o) : SameSession u o.user := by
  cases h with
  | noParent => exact .refl u
  | hasParent _ _ h =>
      exact h.sameSession hdir fun _ _ h => h.sameSession hdir (noteChunk_path env dir path _)

/-- The last chunk of an UPDATE changes the view at most. -/
theorem ReplaceEnds.sameSession {env : Env} {w : World} {u : User} {dir dir' : Dir}
    {replies : MessageQueue} {absolutePath path : Path} {digest : Bytes} {o : Outcome}
    (hdir : u.dir = some dir) (hpath : dir'.path = dir.path)
    (h : ReplaceEnds env u dir' replies absolutePath path digest w o) : SameSession u o.user := by
  cases h with
  | notRemoved => exact .of_dir hdir hpath
  | notRenamed => exact .of_dir hdir hpath
  | replaced _ _ _ h => exact h.sameSession hdir hpath

/-- An ERASE changes the view at most. -/
theorem eraseEntry_sameSession {env : Env} {w : World} {u : User} {dir : Dir}
    (hdir : u.dir = some dir) (replies : MessageQueue) (path : Path) :
    SameSession u (eraseEntry env w u dir replies path).user := by
  unfold eraseEntry
  dsimp only
  split
  · exact .refl u
  · exact .of_dir hdir rfl

/-- Every request but an AUTH and a SYNC that pass their checks changes at most the entries
of the session's view. -/
theorem handleRequest_sameSession {env : Env} {w : World} {u : User} {m : Message}
    (hauth : ∀ username replies, taskOf env u m ≠ .authenticate username replies)
    (hsync : ∀ replies, taskOf env u m ≠ .sync replies) :
    SameSession u (handleRequest env w u m).user := by
  rw [handleRequest_eq_perform]
  cases htask : taskOf env u m with
  | stop h => exact .refl u
  | refuse replies err => exact .refl u
  | keepAlive replies => exact .refl u
  | authenticate username replies => exact absurd htask (hauth username replies)
  | sync replies => exact absurd htask (hsync replies)
  | create dir view replies path digest =>
      obtain ⟨-, -, -, -, -, hdir, -⟩ := passed_taskOf htask (by simp) (by simp)
      exact (createTransfer_ends env w u dir view replies path digest).sameSession hdir
  | update dir view replies path digest oldDigest =>
      obtain ⟨-, -, -, -, -, hdir, -⟩ := passed_taskOf htask (by simp) (by simp)
      exact (updateTransfer_ends env w u dir view replies path digest oldDigest).sameSession hdir
        fun _ _ h => h.sameSession hdir (noteChunk_path env dir path _)
  | erase dir replies path =>
      obtain ⟨-, -, -, hdir, -⟩ := passed_taskOf htask (by simp) (by simp)
      exact eraseEntry_sameSession hdir replies path

/-! ### SYNC -/

/-- A SYNC only reads: the tree and the streams stay, and no call can change them. -/
structure Reads (w : World) (dir : Dir) (w' : World) (dir' : Dir) : Prop where
  disk : w'.disk = w.disk
  streams : w'.streams = w.streams
  calls : World.CallsSince (fun c => c.handed = []) w w'
  path : dir'.path = dir.path

/-- Two steps that only read only read together. -/
theorem Reads.trans {w w' w'' : World} {dir dir' dir'' : Dir} (h : Reads w dir w' dir')
    (h' : Reads w' dir' w'' dir'') : Reads w dir w'' dir'' :=
  ⟨h'.disk.trans h.disk, h'.streams.trans h.streams, h.calls.trans h'.calls,
    h'.path.trans h.path⟩

/-- A call that hands nothing over only reads. -/
theorem reads_record (w : World) {dir dir' : Dir} (c : FsCall) (hc : c.handed = [])
    (hpath : dir'.path = dir.path) : Reads w dir (w.record c) dir' :=
  ⟨rfl, rfl, (World.CallsSince.of_calls_cons rfl).mpr hc, hpath⟩

/-- An entry of the traversal is only read. -/
theorem syncEntry_reads (env : Env) (w : World) (dir : Dir) (replies : MessageQueue) (p : Path) :
    Reads w dir (syncEntry env w dir replies p).1 (syncEntry env w dir replies p).2.1 := by
  have hregular : Reads w dir (w.record (.isRegularFile p)) dir := reads_record w _ rfl rfl
  unfold syncEntry
  dsimp only
  split
  · exact hregular
  · split
    · generalize p.drop dir.path.length = relativePath
      have hread : Reads (w.record (.isRegularFile p)) dir
          ((w.record (.isRegularFile p)).record (.openRead p)) dir := reads_record _ _ rfl rfl
      have hfst := World.md5Hash_fst env (w.record (.isRegularFile p)) p relativePath
      generalize (w.record (.isRegularFile p)).md5Hash env p relativePath = read at hfst ⊢
      obtain ⟨w', t | digest⟩ := read
      · obtain rfl := hfst
        exact hregular.trans hread
      · obtain rfl := hfst
        have hinsert := @Dir.insertOrAssign_path env.hash dir relativePath ⟨true, digest⟩
        dsimp only
        generalize dir.insertOrAssign env.hash relativePath ⟨true, digest⟩ = inserted at hinsert ⊢
        -- A key that is there already is assigned, and stops the traversal.
        obtain ⟨dir', _ | _⟩ := inserted
        · exact hregular.trans (reads_record _ _ rfl hinsert)
        · exact hregular.trans (reads_record _ _ rfl hinsert)
    · exact hregular

/-- The whole traversal. Induction on the entries still to come. -/
theorem syncLoop_reads (env : Env) (ps : List Path) (w : World) (dir : Dir)
    (replies : MessageQueue) :
    Reads w dir (syncLoop env ps w dir replies).1 (syncLoop env ps w dir replies).2.1 := by
  induction ps generalizing w dir replies with
  | nil => exact ⟨rfl, rfl, .of_calls_eq rfl, rfl⟩
  | cons p ps ih =>
      have hentry := syncEntry_reads env w dir replies p
      unfold syncLoop
      generalize syncEntry env w dir replies p = r at hentry ⊢
      obtain ⟨w', dir', replies', _ | _ | t⟩ := r
      · have hadvance : Reads w' dir' (w'.record (.advance p)) dir' := reads_record w' _ rfl rfl
        dsimp only
        split
        · exact hentry.trans hadvance
        · exact (hentry.trans hadvance).trans (ih _ dir' replies')
      · exact hentry
      · exact hentry

/-- A SYNC reads the tree, keeps the path of the view, and sets the flag only when it is
answered OK. -/
theorem handleSync_user (env : Env) (w : World) (u : User) (replies : MessageQueue) :
    (handleSync env w u replies).world.disk = w.disk ∧
    (handleSync env w u replies).world.streams = w.streams ∧
    World.CallsSince (fun c => c.handed = []) w (handleSync env w u replies).world ∧
    ∃ dir synced, (handleSync env w u replies).user = { u with dir := dir, isSynced := synced } ∧
      dir.map Dir.path = u.dir.map Dir.path ∧
      (synced = u.isSynced ∨
        (synced = true ∧ (handleSync env w u replies).Answered .ok .none)) := by
  unfold handleSync
  cases hdir : u.dir with
  | none =>
      have hptr : u.dirPtr = .error .undefinedBehavior := by simp [User.dirPtr, hdir]
      rw [hptr]
      exact ⟨rfl, rfl, .of_calls_eq rfl, u.dir, u.isSynced, rfl, by rw [hdir], Or.inl rfl⟩
  | some dir =>
      have hptr : u.dirPtr = .ok dir := by simp [User.dirPtr, hdir]
      rw [hptr]
      simp only [attempt]
      have hiterate : Reads w dir (w.record (.iterate dir.path)) dir := reads_record w _ rfl rfl
      cases iterate env w dir.path with
      | none =>
          exact ⟨hiterate.disk, hiterate.streams, hiterate.calls, some dir.clear, u.isSynced, rfl,
            rfl, Or.inl rfl⟩
      | some entries =>
          have hloop := hiterate.trans
            (syncLoop_reads env entries (w.record (.iterate dir.path)) dir replies)
          dsimp only
          generalize syncLoop env entries (w.record (.iterate dir.path)) dir replies = r
            at hloop ⊢
          obtain ⟨w', dir', replies', _ | _ | _ | _⟩ := r
          · exact ⟨hloop.disk, hloop.streams, hloop.calls, some dir', true, rfl,
              congrArg some hloop.path, Or.inr ⟨rfl, _, rfl, rfl, rfl⟩⟩
          -- A traversal that fails leaves the flag.
          all_goals
            exact ⟨hloop.disk, hloop.streams, hloop.calls, _, u.isSynced, rfl,
              congrArg some hloop.path, Or.inl rfl⟩

/-! ### The flags along a run -/

/-- The server is about to send this message to the handler of a route. -/
def Reaches (s : Server) (c : Nat) (m : Message) (r : Route) : Prop :=
  s.halt = none ∧ ∃ u msgType view, s.sessions c = some u ∧ m.msgType = some msgType ∧
    (TlvView.ofMessage m).nextTlv = .ok (true, view) ∧ route u msgType = r

/-- The server is about to answer OK to this message, whose type is `t`. -/
def AnswersOk (env : Env) (s : Server) (c : Nat) (m : Message) (t : MsgType) : Prop :=
  s.halt = none ∧ ∃ u, s.sessions c = some u ∧ m.msgType = some t.toByte ∧
    (handleRequest env s.world u m).Answered .ok .none

/-- A CREATE, UPDATE, ERASE or KEEP_ALIVE is about to reach its handler or to be answered
OK. -/
def Serves (env : Env) (s : Server) (c : Nat) (m : Message) : Prop :=
  (∃ r, (r = .create ∨ r = .update ∨ r = .erase ∨ r = .keepAlive) ∧ Reaches s c m r) ∨
    ∃ t, (t = .create ∨ t = .update ∨ t = .erase ∨ t = .keepAlive) ∧ AnswersOk env s c m t

/-- Among these events, which start in state `s`, is an AUTH of connection `c` that was
answered OK. -/
def AuthEarlier (env : Env) (s : Server) (c : Nat) (es : List Event) : Prop :=
  ∃ pre m post, es = pre ++ .request c m :: post ∧
    AnswersOk env (run (Server.step env) s pre) c m .auth

/-- Among these events is a SYNC of connection `c` that was answered OK, and before it an
AUTH. -/
def SyncEarlier (env : Env) (s : Server) (c : Nat) (es : List Event) : Prop :=
  ∃ pre m post, es = pre ++ .request c m :: post ∧
    AnswersOk env (run (Server.step env) s pre) c m .sync ∧ AuthEarlier env s c pre

/-- The gate, for the requests that connection `c` sends among these events. -/
def Gate (env : Env) (s : Server) (c : Nat) (es : List Event) : Prop :=
  ∀ pre m post, es = pre ++ .request c m :: post →
    (Reaches (run (Server.step env) s pre) c m .sync → AuthEarlier env s c pre) ∧
    (Serves env (run (Server.step env) s pre) c m → SyncEarlier env s c pre)

/-- The flags that a connection has now were earned among these events. -/
def FlagsEarned (env : Env) (s : Server) (c : Nat) (es : List Event) : Prop :=
  ∀ u, (run (Server.step env) s es).sessions c = some u →
    (u.isAuth = true → AuthEarlier env s c es) ∧ (u.isSynced = true → SyncEarlier env s c es)

/-- An earlier AUTH stays earlier. -/
theorem AuthEarlier.append {env : Env} {s : Server} {c : Nat} {es : List Event}
    (h : AuthEarlier env s c es) (fs : List Event) : AuthEarlier env s c (es ++ fs) := by
  obtain ⟨pre, m, post, rfl, hok⟩ := h
  exact ⟨pre, m, post ++ fs, by simp, hok⟩

/-- An earlier SYNC stays earlier. -/
theorem SyncEarlier.append {env : Env} {s : Server} {c : Nat} {es : List Event}
    (h : SyncEarlier env s c es) (fs : List Event) : SyncEarlier env s c (es ++ fs) := by
  obtain ⟨pre, m, post, rfl, hok, hauth⟩ := h
  exact ⟨pre, m, post ++ fs, by simp, hok, hauth⟩

/-- A flag that is set after a request was set before it, or the request is of the flag's
type and is answered OK. -/
theorem handleRequest_flags (env : Env) (w : World) (u : User) (m : Message) :
    ((handleRequest env w u m).user.isAuth = true → u.isAuth = true ∨
      (m.msgType = some MsgType.auth.toByte ∧ (handleRequest env w u m).Answered .ok .none)) ∧
    ((handleRequest env w u m).user.isSynced = true → u.isSynced = true ∨
      (m.msgType = some MsgType.sync.toByte ∧ u.isAuth = true ∧
        (handleRequest env w u m).Answered .ok .none)) := by
  -- Only an AUTH and a SYNC that pass their checks touch the flags.
  by_cases hauth : ∃ username replies, taskOf env u m = .authenticate username replies
  · obtain ⟨username, replies, htask⟩ := hauth
    obtain ⟨-, htype, -⟩ := passed_taskOf htask (by simp) (by simp)
    rw [handleRequest_eq_perform, htask]
    exact ⟨fun _ => Or.inr ⟨htype, _, rfl, rfl, rfl⟩, fun h => Or.inl h⟩
  by_cases hsync : ∃ replies, taskOf env u m = .sync replies
  · obtain ⟨replies, htask⟩ := hsync
    obtain ⟨hisAuth, -, htype⟩ := passed_taskOf htask (by simp) (by simp)
    rw [handleRequest_eq_perform, htask]
    obtain ⟨-, -, -, dir, synced, huser, -, hsynced⟩ := handleSync_user env w u replies
    simp only [perform, huser]
    refine ⟨fun h => Or.inl h, fun h => ?_⟩
    rcases hsynced with hsame | ⟨-, hok⟩
    · exact Or.inl (hsame ▸ h)
    · exact Or.inr ⟨htype, hisAuth, hok⟩
  · obtain ⟨dir, huser, -⟩ := handleRequest_sameSession (w := w)
      (fun username replies h => hauth ⟨username, replies, h⟩) (fun replies h => hsync ⟨replies, h⟩)
    rw [huser]
    exact ⟨Or.inl, Or.inl⟩

/-- One event keeps `FlagsEarned`. Only a request of the connection changes its session. -/
theorem flags_step {env : Env} {s : Server} {c : Nat} {es : List Event} {e : Event}
    (h : FlagsEarned env s c es) (he : ∀ a b ip, e ≠ .accept c a b ip) :
    FlagsEarned env s c (es ++ [e]) := by
  intro u' hu'
  -- An unchanged session has its flags from before.
  have hkept : (run (Server.step env) s es).sessions c = some u' →
      (u'.isAuth = true → AuthEarlier env s c (es ++ [e])) ∧
        (u'.isSynced = true → SyncEarlier env s c (es ++ [e])) := fun hu =>
    ⟨fun ha => ((h u' hu).1 ha).append [e], fun hs => ((h u' hu).2 hs).append [e]⟩
  rw [run_append, run_singleton] at hu'
  rcases step_sessions hu' with hu | ⟨a, b, ip, rfl, -⟩ | ⟨m, u, rfl, hhalt, hu, rfl⟩
  · exact hkept hu
  · exact absurd rfl (he a b ip)
  · obtain ⟨hauth, hsynced⟩ := handleRequest_flags env (run (Server.step env) s es).world u m
    constructor
    · intro ha
      rcases hauth ha with ha | ⟨htype, hok⟩
      · exact ((h u hu).1 ha).append _
      · exact ⟨es, m, [], rfl, hhalt, u, hu, htype, hok⟩
    · intro hs
      rcases hsynced hs with hs | ⟨htype, ha, hok⟩
      · exact ((h u hu).2 hs).append _
      · exact ⟨es, m, [], rfl, ⟨hhalt, u, hu, htype, hok⟩, (h u hu).1 ha⟩

/-- Every run of a connection keeps `FlagsEarned`. Induction on the events, last one
first. -/
theorem flags_run {env : Env} {s : Server} {c : Nat} (es : List Event)
    (hs : FlagsEarned env s c []) (hes : ∀ e ∈ es, ∀ a b ip, e ≠ .accept c a b ip) :
    FlagsEarned env s c es := by
  induction es using List.reverseRecOn with
  | nil => exact hs
  | append_singleton es e ih =>
      exact flags_step (ih fun e' he' => hes e' (by simp [he'])) (hes e (by simp))

/-- A request that is about to be answered OK, or to reach its handler, finds both flags
set. -/
theorem serves_flags {env : Env} {s : Server} {c : Nat} {m : Message} (h : Serves env s c m) :
    ∃ u, s.sessions c = some u ∧ u.isSynced = true := by
  rcases h with ⟨r, hr, -, u, msgType, view, hu, -, -, hroute⟩ | ⟨t, ht, -, u, hu, htype, hok⟩
  · have hadmitted := admitted_of_route hroute
    refine ⟨u, hu, ?_⟩
    rcases hr with rfl | rfl | rfl | rfl <;> exact hadmitted.2.1
  · refine ⟨u, hu, ?_⟩
    have hkind := task_of_answered htype hok fun herror => absurd herror (by simp)
    cases htask : taskOf env u m with
    | stop | refuse => simp [htask, Task.msgType] at hkind
    | authenticate | sync =>
        rw [htask] at hkind
        rcases ht with rfl | rfl | rfl | rfl <;> cases hkind
    | keepAlive replies => exact (passed_taskOf htask (by simp) (by simp)).2.1
    | create => exact (passed_taskOf htask (by simp) (by simp)).2.1
    | update => exact (passed_taskOf htask (by simp) (by simp)).2.1
    | erase => exact (passed_taskOf htask (by simp) (by simp)).2.1

/-- A connection that starts with two false flags keeps the gate. -/
theorem gate_of_false {env : Env} {s : Server} {c : Nat} {ip : Bytes} {es : List Event}
    (hs : s.sessions c = some (User.fresh false false ip))
    (hes : ∀ e ∈ es, ∀ a b ip, e ≠ .accept c a b ip) : Gate env s c es := by
  intro pre m post hsplit
  have hstart : FlagsEarned env s c [] := by
    intro u hu
    have hfresh : u = User.fresh false false ip := by
      rw [run, List.foldl_nil, hs] at hu
      exact (Option.some.inj hu).symm
    subst hfresh
    exact ⟨fun h => absurd h (by simp [User.fresh]), fun h => absurd h (by simp [User.fresh])⟩
  have hearned := @flags_run env s c pre hstart fun e he => hes e (by simp [hsplit, he])
  constructor
  · rintro ⟨-, u, msgType, view, hu, -, -, hroute⟩
    exact (hearned u hu).1 (admitted_of_route hroute).1
  · intro hserves
    obtain ⟨u, hu, hsynced⟩ := serves_flags hserves
    exact (hearned u hu).2 hsynced

/-! ### The gate and the memory of a new connection -/

/-- A request without content but for its END. -/
def bareMessage (t : MsgType) : Message := encode t.toByte [(TlvType.end_.toByte, [])]

/-- The AUTH of `bobby`. -/
def bobbyAuth : Message :=
  encode MsgType.auth.toByte [(TlvType.usrn.toByte, ascii "bobby"),
    (TlvType.pswd.toByte, ascii "hunter2"), (TlvType.end_.toByte, [])]

/-- The server with the accounts of `bobby` and `bob` and nothing on its disk, when connection
0 has just been accepted and its memory held these flags. -/
def acceptedServer (isAuth isSynced : Bool) : Server :=
  Server.step (bobbyAndBobEnv []) (Server.start (World.ofDisk Disk.empty))
    (.accept 0 isAuth isSynced (ascii "127.0.0.1"))

/-- A session with both flags set gets its KEEP_ALIVE served. -/
theorem serves_keepAlive {env : Env} {s : Server} {c : Nat} {u : User} (hhalt : s.halt = none)
    (hc : s.sessions c = some u) (hauth : u.isAuth = true) (hsynced : u.isSynced = true) :
    Serves env s c (bareMessage .keepAlive) :=
  Or.inl ⟨.keepAlive, by simp, hhalt, u, MsgType.keepAlive.toByte, _, hc, rfl, rfl,
    by simp [route, hauth, hsynced]; decide⟩

/-- No connection has an AUTH or a SYNC behind it before its first request. -/
theorem not_syncEarlier_nil (env : Env) (s : Server) (c : Nat) : ¬ SyncEarlier env s c [] := by
  rintro ⟨pre, m, post, h, -⟩
  simp at h

/-- Memory that held a set synced flag lets `bobby` skip the SYNC. -/
theorem not_gate_false_true :
    ¬ Gate (bobbyAndBobEnv []) (acceptedServer false true) 0
      [.request 0 bobbyAuth, .request 0 (bareMessage .keepAlive)] := by
  intro hgate
  have hserves : Serves (bobbyAndBobEnv [])
      (run (Server.step (bobbyAndBobEnv [])) (acceptedServer false true) [.request 0 bobbyAuth]) 0
      (bareMessage .keepAlive) :=
    serves_keepAlive (by decide +kernel) rfl (by decide +kernel) (by decide +kernel)
  obtain ⟨pre, m, post, hsplit, ⟨-, u, -, htype, -⟩, -⟩ :=
    (hgate [.request 0 bobbyAuth] (bareMessage .keepAlive) [] rfl).2 hserves
  -- The only earlier request is the AUTH.
  obtain ⟨rfl, hm, -⟩ : pre = [] ∧ m = bobbyAuth ∧ post = [] := by
    cases pre with
    | nil => simpa [eq_comm] using hsplit
    | cons e pre => simp at hsplit
  rw [hm] at htype
  exact absurd htype (by decide)

/-- The gate holds in all surroundings and in all runs of a new connection exactly when the
memory of both its flags held false. -/
theorem session_gate_iff (isAuth isSynced : Bool) :
    (∀ (env : Env) (w : World) (before : List Event) (c : Nat) (ip : Bytes) (es : List Event),
      (run (Server.step env) (Server.start w) before).halt = none →
      (run (Server.step env) (Server.start w) before).sessions c = none →
      (∀ e ∈ es, ∀ a b ip, e ≠ .accept c a b ip) →
      Gate env (run (Server.step env) (Server.start w)
        (before ++ [.accept c isAuth isSynced ip])) c es) ↔
    isAuth = false ∧ isSynced = false := by
  constructor
  · intro hgate
    have hbobby := fun es hes => hgate (bobbyAndBobEnv []) (World.ofDisk Disk.empty) [] 0
      (ascii "127.0.0.1") es rfl rfl hes
    cases isAuth with
    | false =>
        cases isSynced with
        | false => exact ⟨rfl, rfl⟩
        | true => exact absurd (hbobby _ (by simp)) not_gate_false_true
    | true =>
        exfalso
        cases isSynced with
        | false =>
            -- A first SYNC reaches its handler.
            have hfirst := (hbobby [.request 0 (bareMessage .sync)] (by simp) [] _ [] rfl).1
              ⟨rfl, _, _, _, rfl, rfl, rfl, rfl⟩
            obtain ⟨pre, m, post, h, -⟩ := hfirst
            simp at h
        | true =>
            -- A first KEEP_ALIVE is served.
            exact not_syncEarlier_nil _ _ _
              ((hbobby [.request 0 (bareMessage .keepAlive)] (by simp) [] _ [] rfl).2
                (serves_keepAlive rfl rfl rfl rfl))
  · rintro ⟨rfl, rfl⟩ env w before c ip es hhalt hc hes
    refine @gate_of_false env _ c ip es ?_ hes
    rw [run_append, run_singleton]
    generalize run (Server.step env) (Server.start w) before = s at hhalt hc ⊢
    simp [Server.step, hhalt, hc]

/-- On memory that held two set flags, a KEEP_ALIVE is answered OK before any AUTH. -/
theorem not_gate_true_true :
    (handleRequest (bobbyAndBobEnv []) (World.ofDisk Disk.empty)
        (User.fresh true true (ascii "127.0.0.1")) (bareMessage .keepAlive)).Answered .ok .none ∧
      ¬ Gate (bobbyAndBobEnv []) (acceptedServer true true) 0
        [.request 0 (bareMessage .keepAlive)] := by
  refine ⟨by decide +kernel, fun hgate => ?_⟩
  exact not_syncEarlier_nil _ _ _ ((hgate [] _ [] rfl).2 (serves_keepAlive rfl rfl rfl rfl))

end RemoteBackup.Proofs
