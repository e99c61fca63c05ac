import RemoteBackup.Proofs.CallsWithin

/-!
# `RemoteBackup.Proofs.Threads`: the threads of `server::run`

`RemoteBackup.Core.Server` serves a request as a whole. The threads of the source run inside
several handlers at once, and a call of one can come between any two calls of another.

* `Within.acts`, `Within.twin`: the calls of a user keep every stream at home, and answer alike in
  twin worlds.
* `separate`: so the threads of different users are separate, call by call.
* `runsAlone_visits`: a thread that runs alone is a server that has no other connections.
* `threads_serve_as_alone`: whatever the schedule, each user gets the replies and the files of
  that server, after as many calls if the process goes on.
-/

set_option autoImplicit false

namespace RemoteBackup.Proofs

open Lib Relation Stepwise

variable {env : Env} {username : Bytes} {T S : Loc → Prop} {w w' : World} {c : Call}

/-! ### One call -/

/-- A call on one place in the user's directory is an act of the user. -/
theorem record_act (env : Env) {root : Loc} {n : Name} (w : World) {call : FsCall} {l : Loc}
    (hl : root ++ [n] <+: l) (hcall : call.named = [toPath l]) :
    Acts env root n w (w.record call) := by
  refine .single (.record w call fun p hp => ?_)
  rw [hcall, List.mem_singleton] at hp
  rwa [hp, denote_toPath]

/-- A call of a user is a run of acts, unless a session ends. -/
theorem Within.acts (h : Within env username T S c) (hc : ∀ id, c ≠ .eraseStream id) (w : World) :
    Acts env env.backupRoot (nameOf env username) w (exec env c w).1 := by
  cases c with
  | createDirectories p =>
      obtain ⟨l, hl, rfl⟩ := h
      exact .single (.createDirectories w l hl)
  | getStream id p =>
      obtain ⟨rfl, l, ⟨hl, -⟩, rfl⟩ := h
      exact .single (.getStream w l hl)
  | usable id => exact .refl
  | write id content =>
      obtain rfl := h
      exact write_acts env w content
  | flush id =>
      obtain rfl := h
      exact .single (.drain w _)
  | close id =>
      obtain rfl := h
      exact (ReflTransGen.single (.drain w _)).tail (.drop _ (some ⟨none, []⟩) (by simp))
  | eraseStream id => exact absurd rfl (hc id)
  | md5Hash p relativePath =>
      obtain ⟨l, hl, rfl⟩ := h
      exact record_act env w hl rfl
  | remove p =>
      obtain ⟨l, ⟨hl, -⟩, rfl⟩ := h
      exact .single (.remove w l hl)
  | rename p q =>
      obtain ⟨⟨src, ⟨hsrc, -⟩, rfl⟩, dst, ⟨hdst, -⟩, rfl⟩ := h
      exact .single (.rename w src dst hsrc hdst)
  | isEmpty p =>
      obtain ⟨l, hl, rfl⟩ := h
      exact record_act env w hl.below rfl
  | iterate p =>
      obtain rfl := h
      exact record_act env w (List.prefix_refl _) rfl
  | isRegularFile p =>
      obtain ⟨l, hl, rfl⟩ := h
      exact record_act env w hl rfl
  | advance p =>
      obtain ⟨l, hl, rfl⟩ := h
      exact record_act env w hl rfl

/-- A call within the user's directory leaves every stream where its user is at home. -/
theorem Within.homed (h : Within env username T S c) (hw : Homed env.backupRoot w) :
    Homed env.backupRoot (exec env c w).1 := by
  by_cases hc : ∃ id, c = .eraseStream id
  · obtain ⟨id, rfl⟩ := hc
    exact hw.eraseStream id
  · exact (h.acts (fun id hid => hc ⟨id, hid⟩) w).homed hw

/-- The answer to a call is one that can come. -/
theorem Within.answers (h : Within env username T S c) (w : World) :
    Answers c (exec env c w).2 := by
  cases c with
  | iterate p =>
      obtain rfl := h
      cases hentries : (exec env (.iterate (toPath (homeOf env username))) w).2 with
      | none => trivial
      | some entries =>
          obtain ⟨-, rfl⟩ := iterate_below (by simp [homeOf]) hentries
          intro q hq
          obtain ⟨l, hl, rfl⟩ := List.mem_map.mp hq
          rw [denote_toPath]
          exact ⟨l, (mem_entriesBelow.mp ((env.visit_perm _).mem_iff.mp hl)).1, rfl⟩
  | _ => trivial

/-- A place is found to be a regular file alike in twins. -/
theorem regular_toPath (h : Twin (homeOf env username) (md5HashString env username) w w')
    (hfaults : LocalFaults env (homeOf env username)) {l : Loc} (hl : homeOf env username <+: l) :
    regular env w' (toPath l) = regular env w (toPath l) := by
  unfold regular
  rw [h.fails hfaults (near_toPath hl (by simp [FsCall.named])), Disk.status_toPath,
    Disk.status_toPath]
  rcases hnode : w.disk.node l with _ | _ | i
  · rw [(h.disk.none_iff hl).mpr hnode]
  · rw [(h.disk.dir_iff hl).mpr hnode]
  · obtain ⟨i', hi', -⟩ := h.disk.file hl hnode
    rw [hi']

/-- The user's stream is closed on both sides. -/
theorem Twin.close {b : Loc} {id : Bytes} (h : Twin b id w w') :
    Twin b id (w.close id) (w'.close id) where
  disk := h.flush.disk
  stream := by
    have hclosed : ∀ w : World, (w.close id).streams id = some ⟨none, []⟩ :=
      fun w => Function.update_self id _ _
    rw [hclosed, hclosed]
    exact .some ⟨.none, rfl⟩
  calls := by
    rw [World.close_calls, World.close_calls]
    exact h.calls

/-- A call of the user does the same to twins, and answers alike. -/
theorem Within.twin (h : Within env username T S c)
    (hfaults : LocalFaults env (homeOf env username)) (hw : Homed env.backupRoot w)
    (hw' : Homed env.backupRoot w')
    (htwin : Twin (homeOf env username) (md5HashString env username) w w') :
    Twin (homeOf env username) (md5HashString env username) (exec env c w).1 (exec env c w').1 ∧
      (exec env c w').2 = (exec env c w).2 := by
  cases c with
  | createDirectories p =>
      obtain ⟨l, hl, rfl⟩ := h
      refine htwin.createDirectories hfaults ?_ hl
      rintro rfl
      exact absurd (List.prefix_nil.mp hl) (by simp [homeOf])
  | getStream id p =>
      obtain ⟨rfl, l, ⟨hl, -⟩, rfl⟩ := h
      exact htwin.getStream hfaults hl
  | usable id =>
      obtain rfl := h
      exact ⟨htwin, htwin.usable⟩
  | write id content =>
      obtain rfl := h
      exact ⟨htwin.write env content, rfl⟩
  | flush id =>
      obtain rfl := h
      exact ⟨htwin.flush, rfl⟩
  | close id =>
      obtain rfl := h
      exact ⟨htwin.close, rfl⟩
  | eraseStream id =>
      refine ⟨?_, rfl⟩
      rcases h with rfl | rfl
      · exact htwin.eraseStream
      · -- No stream has an empty id, so nobody sees the end of this session.
        have h1 := (eraseStream_unseen hw (nil_ne_nameOf env username)).twin htwin
        exact ((eraseStream_unseen hw' (nil_ne_nameOf env username)).twin h1.symm).symm
  | md5Hash p relativePath =>
      obtain ⟨l, hl, rfl⟩ := h
      exact htwin.md5Hash hfaults hl relativePath
  | remove p =>
      obtain ⟨l, ⟨hl, -⟩, rfl⟩ := h
      exact htwin.remove hfaults hl
  | rename p q =>
      obtain ⟨⟨src, ⟨hsrc, -⟩, rfl⟩, dst, ⟨hdst, -⟩, rfl⟩ := h
      exact htwin.rename hfaults hsrc hdst
  | isEmpty p =>
      obtain ⟨l, hl, rfl⟩ := h
      exact htwin.isEmpty hfaults hl
  | iterate p =>
      obtain rfl := h
      exact ⟨htwin.record _, htwin.iterate hfaults⟩
  | isRegularFile p =>
      obtain ⟨l, hl, rfl⟩ := h
      exact ⟨htwin.record _, regular_toPath htwin hfaults hl⟩
  | advance p =>
      obtain ⟨l, hl, rfl⟩ := h
      refine ⟨htwin.record _, ?_⟩
      simp only [exec]
      rw [htwin.fails hfaults (near_toPath hl (by simp [FsCall.named]))]

/-- A call of another user is not seen. -/
theorem Within.unseen {other : Bytes} (h : Within env other T S c) (hw : Homed env.backupRoot w)
    (hne : md5HashString env other ≠ md5HashString env username) :
    Unseen (homeOf env username) (md5HashString env username) w (exec env c w).1 := by
  by_cases hc : ∃ id, c = .eraseStream id
  · obtain ⟨id, rfl⟩ := hc
    refine eraseStream_unseen (m := nameOf env username) hw ?_
    rcases h with rfl | rfl
    · exact hne
    · exact nil_ne_nameOf env username
  · exact (h.acts (fun id hid => hc ⟨id, hid⟩) w).unseen hw
      fun heq => hne (congrArg Subtype.val heq).symm

/-- The threads of users with different digests are separate. -/
theorem separate {ι : Type} {who : ι → Bytes}
    (hwho : ∀ i j, i ≠ j → md5HashString env (who i) ≠ md5HashString env (who j))
    (hfaults : ∀ i, LocalFaults env (homeOf env (who i))) :
    Separate (exec env) (fun i => Within env (who i) T S) Answers
      (fun i => Twin (homeOf env (who i)) (md5HashString env (who i)))
      (Homed env.backupRoot) where
  refl _ w := .refl _ _ w
  keeps _ _ w hc hw := ⟨hc.homed hw, hc.answers w⟩
  own i _ _ _ hc hw hw' htwin := hc.twin (hfaults i) hw hw' htwin
  other i j _ _ _ hji hc hw htwin := (hc.unseen hw (hwho j i hji)).twin htwin

/-! ### A thread that runs alone -/

/-- How the requests of a run end, for the connections they came from. -/
def resultsOf (env : Env) (s : Server) (es : List Event) : List (Nat × Except Halt Reply) :=
  outputs (Server.step env) (resultOf env) (fun _ => true) s es

/-- A connection as the events of a server, with number 0. -/
def visitEvents (v : Visit) : List Event :=
  .accept 0 v.isAuth v.isSynced v.ip :: (v.requests.map (.request 0) ++ [.shutdown 0])

/-- The results of a run begin with that of its first event. -/
theorem resultsOf_cons (env : Env) (s : Server) (e : Event) (es : List Event) :
    resultsOf env s (e :: es) = resultOf env s e ++ resultsOf env (Server.step env s e) es := rfl

/-- The results of a run are those of its parts. -/
theorem resultsOf_append (env : Env) (s : Server) (es fs : List Event) :
    resultsOf env s (es ++ fs) =
      resultsOf env s es ++ resultsOf env (run (Server.step env) s es) fs :=
  outputs_append s es fs

/-- A server that has stopped answers nothing. -/
theorem resultsOf_of_halt {s : Server} (h : s.halt.isSome) (es : List Event) :
    resultsOf env s es = [] := by
  obtain ⟨e, he⟩ := Option.isSome_iff_exists.mp h
  induction es with
  | nil => rfl
  | cons f es ih =>
      have hstep : Server.step env s f = s := run_of_halt he [f]
      have hnone : resultOf env s f = [] := by
        cases f with
        | request c m => simp [resultOf, h]
        | accept => rfl
        | shutdown => rfl
      rw [resultsOf_cons, hstep, hnone, ih]
      rfl

/-- The server after these events is where the thread is after its requests. -/
structure RunsAlone (env : Env) (s : Server) (es : List Event) (r : World × Served) : Prop where
  world : (run (Server.step env) s es).world = r.1
  session : (run (Server.step env) s es).sessions 0 = some r.2.user
  halt : (run (Server.step env) s es).halt.isNone = r.2.running
  results : resultsOf env s es = r.2.results.map (Prod.mk 0)

/-- Induction on the requests. -/
theorem runsAlone_requests (ms : List Message) {s : Server} {u : User} (hhalt : s.halt = none)
    (hc : s.sessions 0 = some u) :
    RunsAlone env s (ms.map (.request 0)) ((serveRequests env u ms).run (exec env) s.world) := by
  induction ms generalizing s u with
  | nil => exact ⟨rfl, hc, by rw [run, List.map_nil, List.foldl_nil, hhalt]; rfl, rfl⟩
  | cons m ms ih =>
      have hserve : Server.step env s (.request 0 m) = s.serve env 0 u m :=
        step_request m hhalt hc
      have hresult : resultOf env s (.request 0 m) =
          [(0, (handleRequest env s.world u m).result)] := by
        simp [resultOf, hhalt, hc]
      have hself : (s.serve env 0 u m).sessions 0 = some (handleRequest env s.world u m).user :=
        Function.update_self 0 _ s.sessions
      have hruns := runsTo_handleRequest env s.world u m
      unfold serveRequests
      rw [Prog.run_bind, hruns]
      rw [List.map_cons]
      cases hend : (handleRequest env s.world u m).result with
      | error e =>
          have hstop : (s.serve env 0 u m).halt = some e := by simp [Server.serve, hend]
          have hrun : run (Server.step env) s (.request 0 m :: ms.map (.request 0)) =
              s.serve env 0 u m := by
            show run (Server.step env) (Server.step env s (.request 0 m)) _ = _
            rw [hserve, run_of_halt hstop]
          refine ⟨by rw [hrun]; rfl, by rw [hrun, hself]; rfl, by rw [hrun, hstop]; rfl, ?_⟩
          rw [resultsOf_cons, hserve, resultsOf_of_halt (by rw [hstop]; rfl), hresult, hend]
          rfl
      | ok r =>
          have hgo : (s.serve env 0 u m).halt = none := by simp [Server.serve, hend]
          have h := ih hgo hself
          dsimp only
          rw [Prog.run_bind]
          refine ⟨?_, ?_, ?_, ?_⟩
          · show (run (Server.step env) (Server.step env s (.request 0 m)) _).world = _
            rw [hserve]
            exact h.world
          · show (run (Server.step env) (Server.step env s (.request 0 m)) _).sessions 0 = _
            rw [hserve]
            exact h.session
          · show (run (Server.step env) (Server.step env s (.request 0 m)) _).halt.isNone = _
            rw [hserve]
            exact h.halt
          · rw [resultsOf_cons, hserve, hresult, hend, h.results]
            rfl

/-- Induction on the connections. -/
theorem runsAlone_visits (vs : List Visit) {s : Server} (hhalt : s.halt = none)
    (hc : s.sessions 0 = none) :
    (run (Server.step env) s (vs.flatMap visitEvents)).world =
        ((serveVisits env vs).run (exec env) s.world).1 ∧
      resultsOf env s (vs.flatMap visitEvents) =
        ((serveVisits env vs).run (exec env) s.world).2.map (Prod.mk 0) := by
  induction vs generalizing s with
  | nil => exact ⟨rfl, rfl⟩
  | cons v vs ih =>
      have haccept : Server.step env s (.accept 0 v.isAuth v.isSynced v.ip) =
          { s with
            sessions :=
              Function.update s.sessions 0 (some (User.fresh v.isAuth v.isSynced v.ip)) } := by
        simp [Server.step, hhalt, hc]
      have hserved := @runsAlone_requests env v.requests
        (Server.step env s (.accept 0 v.isAuth v.isSynced v.ip)) _ (by rw [haccept, hhalt])
        (by rw [haccept]; exact Function.update_self 0 _ s.sessions)
      have hworld : (Server.step env s (.accept 0 v.isAuth v.isSynced v.ip)).world = s.world := by
        rw [haccept]
      rw [hworld] at hserved
      have hsplit : (v :: vs).flatMap visitEvents =
          [.accept 0 v.isAuth v.isSynced v.ip] ++ (v.requests.map (.request 0) ++
            ([.shutdown 0] ++ vs.flatMap visitEvents)) := by
        simp [visitEvents]
      have hnone : resultsOf env s [.accept 0 v.isAuth v.isSynced v.ip] = [] := rfl
      rw [hsplit, run_append, run_append, resultsOf_append, resultsOf_append, hnone, run_singleton,
        List.nil_append]
      obtain ⟨hend, hsession, hstop, hresults⟩ := hserved
      rw [hresults]
      unfold serveVisits
      rw [Prog.run_bind]
      generalize run (Server.step env) (Server.step env s (.accept 0 v.isAuth v.isSynced v.ip))
        (v.requests.map (.request 0)) = t at hend hsession hstop ⊢
      generalize (serveRequests env (User.fresh v.isAuth v.isSynced v.ip) v.requests).run (exec env)
        s.world = r at hend hsession hstop ⊢
      obtain ⟨w, u, results, running⟩ := r
      obtain rfl : t.world = w := hend
      cases running with
      | false =>
          -- The process has stopped, and with it the connections that were still to come.
          have hsome : t.halt.isSome := by simpa using hstop
          obtain ⟨e, he⟩ := Option.isSome_iff_exists.mp hsome
          rw [run_of_halt he, resultsOf_of_halt hsome, List.append_nil]
          exact ⟨rfl, rfl⟩
      | true =>
          have hgo : t.halt = none := by simpa using hstop
          have hshut : Server.step env t (.shutdown 0) =
              { t with
                world := t.world.eraseStream u.id
                sessions := Function.update t.sessions 0 none } := by
            have hsession' : t.sessions 0 = some u := hsession
            simp [Server.step, hgo, hsession']
          have hrest := @ih (Server.step env t (.shutdown 0)) (by rw [hshut, hgo])
            (by rw [hshut]; exact Function.update_self 0 _ t.sessions)
          have hworld' : (Server.step env t (.shutdown 0)).world = t.world.eraseStream u.id := by
            rw [hshut]
          rw [hworld'] at hrest
          have hquiet : resultsOf env t [.shutdown 0] = [] := rfl
          rw [run_append, resultsOf_append, hquiet, run_singleton, hrest.1, hrest.2,
            List.nil_append, if_pos rfl, Prog.run_call, Prog.run_bind]
          exact ⟨rfl, (List.map_append ..).symm⟩

/-! ### The threads together -/

/-- The threads of `server::run`, each with the connections of one user. -/
def threads (env : Env) {ι : Type} (disk : Disk) (vs : ι → List Visit) :
    Pool Call Call.Answer World ι (List (Except Halt Reply)) :=
  ⟨World.ofDisk disk, fun i => serveVisits env (vs i), false⟩

/-- Whatever calls of other users come between those of a user: the requests of the user end, and
the files of the user are, as if a server had served these connections only and each request as a
whole. While no request stops the process, the thread of the user is done after as many calls as it
makes alone. -/
theorem threads_serve_as_alone {ι : Type} [DecidableEq ι] {disk : Disk} {who : ι → Bytes}
    {vs : ι → List Visit}
    (hwho : ∀ i j, i ≠ j → md5HashString env (who i) ≠ md5HashString env (who j))
    (hfaults : ∀ i, LocalFaults env (homeOf env (who i)))
    (hrequests : ∀ i, ∀ v ∈ vs i, ∀ m ∈ v.requests, PlainItems m ∧ AuthOnlyAs env (who i) m)
    (schedule : List ι) (pool : Pool Call Call.Answer World ι (List (Except Halt Reply)))
    (hpool : pool = run (Pool.step (exec env) stopped) (threads env disk vs) schedule) (i : ι) :
    (∀ results, pool.threads i = .done results →
      results.map (Prod.mk 0) =
        resultsOf env (Server.start (World.ofDisk disk)) ((vs i).flatMap visitEvents) ∧
      ∀ l, homeOf env (who i) <+: l →
        (run (Server.step env) (Server.start (World.ofDisk disk))
          ((vs i).flatMap visitEvents)).world.disk.look l = pool.state.disk.look l) ∧
    (pool.ended = false →
      (serveVisits env (vs i)).length (exec env) (World.ofDisk disk) ≤ schedule.count i →
        ∃ results, pool.threads i = .done results) := by
  have hseparate := @separate env (fun _ => True) (fun _ => True) ι who hwho hfaults
  have hhomed : Homed env.backupRoot (World.ofDisk disk) :=
    (@tidy_start env (fun _ => []) disk).homed
  have hwithin : ∀ i, (serveVisits env (vs i)).Behaves
      (Within env (who i) (fun _ => True) (fun _ => True)) Answers fun _ => True :=
    fun i => serveVisits_within (vs i) fun v hv m hm =>
      ⟨aims_anywhere (hrequests i v hv m hm).1, (hrequests i v hv m hm).2⟩
  subst hpool
  refine ⟨fun results hdone => ?_, fun hrunning hcount =>
    hseparate.finishes hhomed hwithin hrunning hcount⟩
  obtain ⟨hresults, htwin⟩ := hseparate.finished hhomed hwithin hdone
  obtain ⟨hworld, hserver⟩ :=
    @runsAlone_visits env (vs i) (Server.start (World.ofDisk disk)) rfl rfl
  refine ⟨?_, fun l hl => ?_⟩
  · rw [hserver, hresults]
    rfl
  · rw [hworld]
    exact htwin.disk.look l hl

/-! ### Two users at once -/

/-- An AUTH logs in as the user that its first TLV names. -/
theorem authOnlyAs_of_firstValue {m : Message} (h : FirstValue m username) :
    AuthOnlyAs env username m := fun _ _ _ htask => (firstValue_of_authenticate htask).unique h

/-- What is no AUTH logs nobody in. -/
theorem authOnlyAs_of_msgType {m : Message} (h : m.msgType ≠ some MsgType.auth.toByte) :
    AuthOnlyAs env username m := fun _ _ _ htask =>
  absurd (passed_taskOf htask (by simp) (by simp)).2.1 h

/-- `bobby` and `bob`. -/
def bobbyOrBob (i : Bool) : Bytes := if i then ascii "bobby" else ascii "bob"

/-- Both log in and send a chunk of `/a`. -/
def bothVisits (i : Bool) : List Visit :=
  [⟨false, false, ascii "127.0.0.1", [if i then bobbyAuth else bobAuth, bareMessage .sync,
    chunk .create (ascii "/a") (ascii "00") (ascii "x") false]⟩]

/-- The two threads take turns, call by call. -/
def bothThreads : Pool Call Call.Answer World Bool (List (Except Halt Reply)) :=
  run (Pool.step (exec (bobFirstEnv [])) stopped) (threads (bobFirstEnv []) bothDisk bothVisits)
    (List.replicate 20 [true, false]).flatten

/-- `bobby`'s thread, beside that of `bob`, has the results and the files that it would have alone.
-/
theorem threads_serve_as_alone_bobby :
    ∃ results, bothThreads.threads true = .done results ∧
      results.map (Prod.mk 0) = resultsOf (bobFirstEnv [])
        (Server.start (World.ofDisk bothDisk)) ((bothVisits true).flatMap visitEvents) ∧
      ∀ l, homeOf (bobFirstEnv []) (ascii "bobby") <+: l →
        (run (Server.step (bobFirstEnv [])) (Server.start (World.ofDisk bothDisk))
          ((bothVisits true).flatMap visitEvents)).world.disk.look l =
          bothThreads.state.disk.look l := by
  have hchunk : Signed (chunk .create (ascii "/a") (ascii "00") (ascii "x") false) (ascii "/a")
      (ascii "00") := ⟨_, _, rfl, rfl, by decide +kernel⟩
  have hserve := @threads_serve_as_alone (bobFirstEnv []) Bool _ bothDisk bobbyOrBob bothVisits
    (by decide +kernel) (fun _ => localFaults_of_noFaults (fun _ _ => rfl) fun _ _ _ _ _ => rfl) (by
      intro i v hv m hm
      obtain rfl := List.mem_singleton.mp hv
      simp only [List.mem_cons, List.not_mem_nil, or_false] at hm
      rcases hm with rfl | rfl | rfl
      · cases i with
        | false =>
            exact ⟨plainItems_of_msgType rfl (Or.inl rfl), authOnlyAs_of_firstValue ⟨_, rfl, rfl⟩⟩
        | true =>
            exact ⟨plainItems_of_msgType rfl (Or.inl rfl), authOnlyAs_of_firstValue ⟨_, rfl, rfl⟩⟩
      · exact ⟨plainItems_of_msgType rfl (Or.inr rfl), authOnlyAs_of_msgType (by decide)⟩
      · exact ⟨plainItems_a hchunk, authOnlyAs_of_msgType (by decide)⟩)
    (List.replicate 20 [true, false]).flatten bothThreads rfl true
  obtain ⟨results, hdone⟩ := hserve.2 (by decide +kernel) (by decide +kernel)
  exact ⟨results, hdone, hserve.1 results hdone⟩

end RemoteBackup.Proofs
