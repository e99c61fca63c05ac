import RemoteBackup.Lib.Unwinding
import RemoteBackup.Proofs.Isolation
import RemoteBackup.Proofs.SessionLife

/-!
# `RemoteBackup.Proofs.NonInterference`: the users do not interfere

The run of a server with many users, beside the run that keeps the events of one user's
connections. `who` names the user of each connection.

* `Tidy`: every session works in the directory of its user, and so does every stream. Every
  event keeps it (`tidy_step`).
* `Matches`: the two servers look the same to the user. An event of the user keeps it when it
  happens to both (`Matches.own`), an event of another user when it happens to the first
  (`Matches.other`).
* `users_do_not_interfere`: the user sees the same in both runs.
-/

set_option autoImplicit false

namespace RemoteBackup

open Lib

/-- The connection that an event is about. -/
def Event.connection : Event → Nat
  | .accept c _ _ _ => c
  | .request c _ => c
  | .shutdown c => c

namespace Proofs

/-! ### Every session in its directory -/

/-- A digest in text is a plain component. -/
theorem md5HashString_plain (env : Env) (username : Bytes) :
    Plain (md5HashString env username) := md5ToString_plain _

/-- The name of a user's directory. -/
def nameOf (env : Env) (username : Bytes) : Name :=
  ⟨md5HashString env username, md5HashString_plain env username⟩

/-- The name of a user's directory is not empty. -/
theorem nil_ne_nameOf (env : Env) (username : Bytes) : [] ≠ (nameOf env username).1 :=
  (nameOf env username).2.1.symm

/-- Every AUTH that is answered OK on a connection is for the user whom `who` names. -/
def AuthAs (env : Env) (who : Nat → Bytes) (s : Server) : Event → Prop
  | .request c m => ∀ u, s.sessions c = some u → EndsAuth env s.world u m → FirstValue m (who c)
  | _ => True

/-- The paths of the ITEMs in the event's message are plain. -/
def PlainEvent : Event → Prop
  | .request _ m => PlainItems m
  | _ => True

/-- A session of this user, or one that nobody has authenticated. -/
def InPlace (env : Env) (username : Bytes) (u : User) : Prop :=
  (u.dir = none ∧ u.id = []) ∨
    ∃ dir, SessionOf (homeOf env username) (md5HashString env username) u dir

/-- Every session, and every stream, works in the directory of its user. -/
structure Tidy (env : Env) (who : Nat → Bytes) (s : Server) : Prop where
  homed : Homed env.backupRoot s.world
  sessions : ∀ c u, s.sessions c = some u → InPlace env (who c) u

variable {env : Env} {who : Nat → Bytes} {username : Bytes}

/-- A server without connections is tidy. -/
theorem tidy_start (disk : Disk) : Tidy env who (Server.start (World.ofDisk disk)) where
  homed id i l hopen _ := absurd hopen (by simp [World.openOn, Server.start, World.ofDisk])
  sessions c u hc := absurd hc (by simp [Server.start])

/-- A new session is in place: it has no directory. -/
theorem inPlace_fresh (isAuth isSynced : Bool) (ip : Bytes) :
    InPlace env username (User.fresh isAuth isSynced ip) := Or.inl ⟨rfl, rfl⟩

/-- A session stays in place while its identity is the same. -/
theorem SameIdentity.inPlace {u u' : User} (h : SameIdentity u u')
    (hu : InPlace env username u) : InPlace env username u' := by
  obtain ⟨hid, -, hpath⟩ := h
  rcases hu with ⟨hdir, hnil⟩ | ⟨dir, hu⟩
  · refine Or.inl ⟨?_, hid.trans hnil⟩
    rw [hdir, Option.map_none] at hpath
    exact Option.map_eq_none_iff.mp hpath
  · rw [hu.holds, Option.map_some] at hpath
    obtain ⟨dir', hdir', hpath'⟩ := Option.map_eq_some_iff.mp hpath
    exact Or.inr ⟨dir', hid.trans hu.id, hdir', hpath'.trans hu.path⟩

/-- A session of the user is in place. -/
theorem Identified.inPlace {u : User} (h : Identified env u username) :
    InPlace env username u := by
  obtain ⟨hid, -, hpath⟩ := h
  obtain ⟨dir, hdir, hdirpath⟩ := Option.map_eq_some_iff.mp hpath
  refine Or.inr ⟨dir, hid, hdir, hdirpath.trans ?_⟩
  exact append_toPath_name env.backupRoot (nameOf env username)

/-- A request leaves the session with its user. -/
theorem handleRequest_inPlace {w : World} {u : User} {m : Message}
    (hu : InPlace env username u) (hauth : EndsAuth env w u m → FirstValue m username) :
    InPlace env username (handleRequest env w u m).user := by
  rcases handleRequest_identity env w u m with hsame | ⟨-, hends⟩
  · exact hsame.inPlace hu
  · exact (hends.identified (hauth hends)).2.inPlace

/-- What a request does is a run of acts in the directory of the user. -/
theorem InPlace.acts {u : User} (h : InPlace env username u) (w : World) {m : Message}
    (hm : PlainItems m) :
    Acts env env.backupRoot (nameOf env username) w (handleRequest env w u m).world := by
  rcases h with ⟨hdir, -⟩ | ⟨dir, hu⟩
  · rw [handleRequest_noDir hdir]
    exact .refl
  · exact handleRequest_acts hu env w hm

/-- Every event keeps the sessions and the streams in the directories of their users. -/
theorem tidy_step {s : Server} {e : Event} (h : Tidy env who s) (hauth : AuthAs env who s e)
    (hplain : PlainEvent e) : Tidy env who (Server.step env s e) where
  homed := by
    have hstep := step_ends env s e
    generalize Server.step env s e = s' at hstep
    cases hstep with
    | idle => exact h.homed
    | accepted => exact h.homed
    | served c m u _ hc => exact ((h.sessions c u hc).acts s.world hplain).homed h.homed
    | shut c u => exact h.homed.eraseStream u.id
  sessions := by
    intro c u hc
    rcases step_sessions hc with hc | ⟨isAuth, isSynced, ip, -, rfl⟩ | ⟨m, u', rfl, -, hc', rfl⟩
    · exact h.sessions c u hc
    · exact inPlace_fresh isAuth isSynced ip
    · exact handleRequest_inPlace (h.sessions c u' hc') (hauth u' hc')

/-! ### The two servers -/

/-- What a client gets to see at an event: how its request ends. -/
def resultOf (env : Env) (s : Server) : Event → List (Nat × Except Halt Reply)
  | .request c m =>
      if s.halt.isSome then [] else
      match s.sessions c with
      | some u => [(c, (handleRequest env s.world u m).result)]
      | none => []
  | _ => []

/-- The events of a user's connections. -/
def ofUser (who : Nat → Bytes) (username : Bytes) (e : Event) : Bool :=
  decide (who e.connection = username)

/-- What is known of every event: the process survives it, AUTH is for the connection's user, and
the paths of ITEMs are plain. -/
structure Regular (env : Env) (who : Nat → Bytes) (s : Server) (e : Event) : Prop where
  running : (Server.step env s e).halt = none
  auth : AuthAs env who s e
  plain : PlainEvent e

/-- The two servers look the same to the user. -/
structure Matches (env : Env) (who : Nat → Bytes) (username : Bytes) (s t : Server) : Prop where
  tidy : Tidy env who s
  tidy' : Tidy env who t
  halt : t.halt = none
  world : Twin (homeOf env username) (md5HashString env username) s.world t.world
  sessions : ∀ c, who c = username → t.sessions c = s.sessions c

/-- Sessions that agree on the user's connections still do when one of them is set. -/
theorem sessions_update {f g : Nat → Option User} (h : ∀ c, who c = username → g c = f c) (c : Nat)
    (x : Option User) (c' : Nat) (hc' : who c' = username) :
    Function.update g c x c' = Function.update f c x c' := by
  by_cases hcc : c' = c
  · subst hcc
    rw [Function.update_self, Function.update_self]
  · rw [Function.update_of_ne hcc, Function.update_of_ne hcc, h c' hc']

/-- The sessions of the user do not change when another connection's does. -/
theorem sessions_other {f : Nat → Option User} {c : Nat} (hother : who c ≠ username)
    (x : Option User) {c' : Nat} (hc' : who c' = username) : Function.update f c x c' = f c' := by
  rw [Function.update_of_ne]
  rintro rfl
  exact hother hc'

/-- The end of a session of the user, or of one that nobody has authenticated. -/
theorem InPlace.eraseStream_twin {u : User} (hu : InPlace env username u) {w w' : World}
    (hw : Homed env.backupRoot w) (hw' : Homed env.backupRoot w')
    (h : Twin (homeOf env username) (md5HashString env username) w w') :
    Twin (homeOf env username) (md5HashString env username) (w.eraseStream u.id)
      (w'.eraseStream u.id) := by
  rcases hu with ⟨-, hnil⟩ | ⟨dir, hu⟩
  · -- No stream has an empty id, so nobody sees the end of this session.
    have hid : u.id ≠ (nameOf env username).1 := hnil ▸ nil_ne_nameOf env username
    have h1 := (eraseStream_unseen hw hid).twin h
    exact ((eraseStream_unseen hw' hid).twin h1.symm).symm
  · rw [hu.id]
    exact h.eraseStream

/-- Nothing happens on a connection that is not there, unless it is accepted. -/
theorem step_noSession {s : Server} {e : Event} (hc : s.sessions e.connection = none)
    (he : ∀ c isAuth isSynced ip, e ≠ .accept c isAuth isSynced ip) :
    Server.step env s e = s ∧ resultOf env s e = [] := by
  cases e with
  | accept c isAuth isSynced ip => exact absurd rfl (he c isAuth isSynced ip)
  | request c m =>
      simp only [Event.connection] at hc
      simp [Server.step, resultOf, hc]
  | shutdown c =>
      simp only [Event.connection] at hc
      simp [Server.step, resultOf, hc]

/-- A request of the user that both servers receive. -/
theorem Matches.ownRequest {s t : Server} {c : Nat} {m : Message} {u : User}
    (h : Matches env who username s t) (hfaults : LocalFaults env (homeOf env username))
    (he : Regular env who s (.request c m)) (hwho : who c = username)
    (hc : s.sessions c = some u) :
    Matches env who username (Server.step env s (.request c m))
      (Server.step env t (.request c m)) ∧
      resultOf env t (.request c m) = resultOf env s (.request c m) := by
  have hhalt := halt_of_step he.running
  have hsame : t.sessions c = some u := (h.sessions c hwho).trans hc
  have hu := h.tidy.sessions c u hc
  rw [hwho] at hu
  have hend := handleRequest_twin h.world hfaults (by simp [homeOf]) (hu.imp_left And.left)
    he.plain
  have htidy := tidy_step h.tidy he.auth he.plain
  -- The second server authenticates the same user, because its answer is the same.
  have hauth : AuthAs env who t (.request c m) := by
    intro u' hu' hends
    obtain rfl := Option.some.inj (hsame.symm.trans hu')
    obtain ⟨r, hr, hstatus, herr⟩ := hends.2
    exact he.auth u hc ⟨hends.1, r, hend.result.symm.trans hr, hstatus, herr⟩
  have htidy' := tidy_step h.tidy' hauth he.plain
  obtain ⟨r, hr⟩ := result_of_serve (step_request m hhalt hc ▸ he.running)
  rw [step_request m hhalt hc] at htidy ⊢
  rw [step_request m h.halt hsame] at htidy' ⊢
  refine ⟨⟨htidy, htidy', ?_, hend.world, fun c' hc' => ?_⟩, ?_⟩
  · simp only [Server.serve, hend.result, hr]
  · simp only [Server.serve, hend.user]
    exact sessions_update h.sessions c _ c' hc'
  · simp [resultOf, hhalt, h.halt, hc, hsame, hend.result]

/-- An event of the user that happens to both servers. -/
theorem Matches.own {s t : Server} {e : Event} (h : Matches env who username s t)
    (hfaults : LocalFaults env (homeOf env username)) (he : Regular env who s e)
    (hown : ofUser who username e = true) :
    Matches env who username (Server.step env s e) (Server.step env t e) ∧
      resultOf env t e = resultOf env s e := by
  have hhalt := halt_of_step he.running
  have hwho : who e.connection = username := by simpa [ofUser] using hown
  have hsame := h.sessions _ hwho
  have htidy := tidy_step h.tidy he.auth he.plain
  -- Without a session the event changes neither server.
  have hidle : s.sessions e.connection = none →
      (∀ c isAuth isSynced ip, e ≠ .accept c isAuth isSynced ip) →
      Matches env who username (Server.step env s e) (Server.step env t e) ∧
        resultOf env t e = resultOf env s e := by
    intro hc hne
    obtain ⟨hs, hrs⟩ := @step_noSession env s e hc hne
    obtain ⟨ht, hrt⟩ := @step_noSession env t e (hsame.trans hc) hne
    rw [hs, ht, hrs, hrt]
    exact ⟨h, rfl⟩
  cases e with
  | accept c isAuth isSynced ip =>
      have htidy' := @tidy_step env who t (.accept c isAuth isSynced ip) h.tidy' trivial trivial
      refine ⟨⟨htidy, htidy', ?_, ?_, ?_⟩, rfl⟩
      all_goals simp only [Event.connection] at hsame
      all_goals cases hc : s.sessions c
      all_goals simp only [Server.step, hhalt, h.halt, hsame, hc, Option.isSome_none,
        Bool.false_eq_true, if_false]
      · exact h.world
      · exact h.world
      · exact sessions_update h.sessions c _
      · exact h.sessions
  | request c m =>
      cases hc : s.sessions c with
      | none => exact hidle hc (by simp)
      | some u => exact h.ownRequest hfaults he hwho hc
  | shutdown c =>
      cases hc : s.sessions c with
      | none => exact hidle hc (by simp)
      | some u =>
          have htidy' := @tidy_step env who t (.shutdown c) h.tidy' trivial trivial
          have hu := h.tidy.sessions c u hc
          simp only [Event.connection] at hsame hwho
          rw [hwho] at hu
          rw [hc] at hsame
          simp only [Server.step, hhalt, h.halt, hc, hsame, Option.isSome_none, Bool.false_eq_true,
            if_false] at htidy htidy' ⊢
          exact ⟨⟨htidy, htidy', rfl, hu.eraseStream_twin h.tidy.homed h.tidy'.homed h.world,
            sessions_update h.sessions c none⟩, rfl⟩

/-- An event of another user that happens to the first server only. -/
theorem Matches.other {s t : Server} {e : Event} (h : Matches env who username s t)
    (hwho : ∀ c, who c ≠ username → md5HashString env (who c) ≠ md5HashString env username)
    (he : Regular env who s e) (hother : ofUser who username e = false) :
    Matches env who username (Server.step env s e) t := by
  have hne : who e.connection ≠ username := by simpa [ofUser] using hother
  have htidy := tidy_step h.tidy he.auth he.plain
  have hdigest := hwho _ hne
  have hname : nameOf env username ≠ nameOf env (who e.connection) :=
    fun heq => hdigest (congrArg Subtype.val heq).symm
  have hstep := step_ends env s e
  generalize Server.step env s e = s' at hstep htidy
  -- The second server stays as it is, so what the first does has to be unseen.
  cases hstep with
  | idle => exact h
  | accepted c isAuth isSynced ip =>
      exact ⟨htidy, h.tidy', h.halt, h.world, fun c' hc' =>
        (h.sessions c' hc').trans (sessions_other hne _ hc').symm⟩
  | served c m u _ hc =>
      have hunseen := ((h.tidy.sessions c u hc).acts s.world he.plain).unseen h.tidy.homed hname
      exact ⟨htidy, h.tidy', h.halt, hunseen.twin h.world, fun c' hc' =>
        (h.sessions c' hc').trans (sessions_other hne _ hc').symm⟩
  | shut c u _ hc =>
      have hid : u.id ≠ (nameOf env username).1 := by
        rcases h.tidy.sessions c u hc with ⟨-, hnil⟩ | ⟨dir, hu⟩
        · exact hnil ▸ nil_ne_nameOf env username
        · rw [hu.id]
          exact hdigest
      exact ⟨htidy, h.tidy', h.halt, (eraseStream_unseen h.tidy.homed hid).twin h.world,
        fun c' hc' => (h.sessions c' hc').trans (sessions_other hne _ hc').symm⟩

/-! ### The two runs -/

/-- A process that still runs after some events has run before them, and after each of them. -/
theorem along_running {s : Server} {es : List Event}
    (h : (run (Server.step env) s es).halt = none) :
    s.halt = none ∧
      Along (Server.step env) (fun s e => (Server.step env s e).halt = none) s es := by
  induction es generalizing s with
  | nil => exact ⟨h, trivial⟩
  | cons e es ih =>
      obtain ⟨hstep, hrest⟩ := ih h
      exact ⟨halt_of_step hstep, hstep, hrest⟩

/-- What other users do is not seen, and what the user does depends on what is seen: the conditions
of the general theorem. -/
theorem unwinding (hwho : ∀ c, who c ≠ username →
      md5HashString env (who c) ≠ md5HashString env username)
    (hfaults : LocalFaults env (homeOf env username)) :
    Unwinding (Server.step env) (resultOf env) (ofUser who username) (Regular env who)
      (Matches env who username) where
  own _ _ _ h he hown := h.own hfaults he hown
  other _ _ _ h he hother := h.other hwho he hother

/-- The user has the same at both servers: the sessions with their views, the stream up to the
inode, and the files below the user's directory. -/
structure SameForUser (env : Env) (who : Nat → Bytes) (username : Bytes) (s t : Server) :
    Prop where
  sessions : ∀ c, who c = username → t.sessions c = s.sessions c
  stream : Option.Rel (SameStream (homeOf env username) s.world.disk t.world.disk)
    (s.world.streams (md5HashString env username)) (t.world.streams (md5HashString env username))
  files : ∀ l, homeOf env username <+: l → t.world.disk.look l = s.world.disk.look l

/-- The user's requests end alike, and leave the same, in every run and in the run that keeps
only the events of the user's connections. The runs start where any events have led. `hwho`:
the other users have other digests. `hfaults`: what goes wrong with the calls in the user's
directory does not depend on the calls elsewhere. `hrunning`: no request stops the process. -/
theorem users_do_not_interfere {disk : Disk} {before es : List Event}
    (hwho : ∀ c, who c ≠ username → md5HashString env (who c) ≠ md5HashString env username)
    (hfaults : LocalFaults env (homeOf env username))
    (hauth : Along (Server.step env) (AuthAs env who) (Server.start (World.ofDisk disk))
      (before ++ es))
    (hplain : ∀ e ∈ before ++ es, PlainEvent e)
    (hrunning : (run (Server.step env) (Server.start (World.ofDisk disk))
      (before ++ es)).halt = none) :
    outputs (Server.step env) (resultOf env) (ofUser who username)
        (run (Server.step env) (Server.start (World.ofDisk disk)) before)
        (es.filter (ofUser who username)) =
      outputs (Server.step env) (resultOf env) (ofUser who username)
        (run (Server.step env) (Server.start (World.ofDisk disk)) before) es ∧
    SameForUser env who username
      (run (Server.step env) (run (Server.step env) (Server.start (World.ofDisk disk)) before) es)
      (run (Server.step env) (run (Server.step env) (Server.start (World.ofDisk disk)) before)
        (es.filter (ofUser who username))) := by
  have hregular : Along (Server.step env) (Regular env who) (Server.start (World.ofDisk disk))
      (before ++ es) := by
    have halong := along_and hauth (along_running hrunning).2
    rw [along_iff] at halong ⊢
    intro pre e post hes
    obtain ⟨he, hstep⟩ := halong pre e post hes
    exact ⟨hstep, he, hplain e (by rw [hes]; simp)⟩
  obtain ⟨hbefore, hes⟩ := along_append.mp hregular
  have htidy : Tidy env who (run (Server.step env) (Server.start (World.ofDisk disk)) before) :=
    (invariant (tidy_start disk) (fun _ _ h he => tidy_step h he.auth he.plain) hbefore).1
  rw [run_append] at hrunning
  generalize run (Server.step env) (Server.start (World.ofDisk disk)) before = s at *
  have hstart : Matches env who username s s :=
    ⟨htidy, htidy, (along_running hrunning).1, .refl _ _ _, fun _ _ => rfl⟩
  obtain ⟨hmatches, houtputs⟩ := (unwinding hwho hfaults).run hstart hes
  exact ⟨houtputs, hmatches.sessions, hmatches.world.stream, hmatches.world.disk.look⟩

/-! ### Two users at once -/

/-- The surroundings of `bobbyAndBobEnv`, but with the line of `bob` first, so that both can
authenticate. -/
def bobFirstEnv (digests : List (Bytes × List UInt32)) : Env :=
  { bobbyAndBobEnv digests with
    credentials := some ((bobbyAndBob.reverse.map credentialLine).flatMap fun l => l ++ [newline]) }

/-- The AUTH of `bob`. -/
def bobAuth : Message :=
  encode MsgType.auth.toByte [(TlvType.usrn.toByte, ascii "bob"),
    (TlvType.pswd.toByte, ascii "secret"), (TlvType.end_.toByte, [])]

/-- The tree with the directories of both. -/
def bothDisk : Disk :=
  (bobbyWorld.disk.createDirectories
    (append (ascii "/backup") (ascii "BC519D9FCA21EF7007F3145CD8290A98"))).1

/-- Connection 0 is `bobby`'s, and the others are `bob`'s. -/
def bobbyFirst (c : Nat) : Bytes := if c = 0 then ascii "bobby" else ascii "bob"

/-- Both connect and authenticate. -/
def bothLogin : List Event :=
  [.accept 0 false false (ascii "127.0.0.1"), .accept 1 false false (ascii "127.0.0.2"),
    .request 0 bobbyAuth, .request 1 bobAuth]

/-- Both store a file `/a`, `bobby` in two chunks. `bob` goes in between. -/
def bothStore : List Event :=
  [.request 1 (bareMessage .sync), .request 0 (bareMessage .sync),
    .request 0 (chunk .create (ascii "/a") (ascii "1D6677F1499CDF9D69169C4083605DE9")
      (ascii "h") false),
    .request 1 (chunk .create (ascii "/a") (ascii "00") (ascii "x") false), .shutdown 1,
    .request 0 (chunk .create (ascii "/a") (ascii "1D6677F1499CDF9D69169C4083605DE9")
      (ascii "i") true)]

/-- What is no AUTH logs nobody in. -/
theorem authAs_of_msgType {env : Env} {who : Nat → Bytes} {m : Message} (s : Server) (c : Nat)
    (h : m.msgType ≠ some MsgType.auth.toByte) : AuthAs env who s (.request c m) :=
  fun _ _ hends => absurd hends.1 h

/-- An AUTH or a SYNC declares no path. -/
theorem plainItems_of_msgType {m : Message} {k : MsgType} (h : m.msgType = some k.toByte)
    (hk : k = .auth ∨ k = .sync) : PlainItems m := by
  intro k' hk' h'
  obtain rfl := MsgType.toByte_injective (Option.some.inj (h'.symm.trans h))
  rcases hk with rfl | rfl <;> simp at hk'

/-- The path `/a` is plain. -/
theorem plainItems_a {m : Message} {digest : Bytes} (h : Signed m (ascii "/a") digest) :
    PlainItems m := fun _ _ _ =>
  plainRequest_of_signed h ⟨[⟨ascii "a", by decide⟩], by decide, Or.inl (by decide)⟩

/-- The sign of the first chunk of `bobby`'s file. -/
theorem signed_first : Signed (chunk .create (ascii "/a")
    (ascii "1D6677F1499CDF9D69169C4083605DE9") (ascii "h") false) (ascii "/a")
    (ascii "1D6677F1499CDF9D69169C4083605DE9") :=
  ⟨_, _, rfl, rfl, by decide +kernel⟩

/-- The sign of the last chunk. -/
theorem signed_last : Signed (chunk .create (ascii "/a")
    (ascii "1D6677F1499CDF9D69169C4083605DE9") (ascii "i") true) (ascii "/a")
    (ascii "1D6677F1499CDF9D69169C4083605DE9") :=
  ⟨_, _, rfl, rfl, by decide +kernel⟩

/-- The sign of `bob`'s chunk. -/
theorem signed_other : Signed (chunk .create (ascii "/a") (ascii "00") (ascii "x") false)
    (ascii "/a") (ascii "00") :=
  ⟨_, _, rfl, rfl, by decide +kernel⟩

/-- Every connection that is not `bobby`'s is `bob`'s. -/
theorem bobbyFirst_eq_bob {c : Nat} (hc : bobbyFirst c ≠ ascii "bobby") :
    bobbyFirst c = ascii "bob" := by
  unfold bobbyFirst at hc ⊢
  split
  · rename_i hzero
    exact absurd (if_pos hzero) hc
  · rfl

/-- `bob` does not interfere with `bobby`. -/
theorem users_do_not_interfere_bobby :
    outputs (Server.step (bobFirstEnv [ahi])) (resultOf (bobFirstEnv [ahi]))
        (ofUser bobbyFirst (ascii "bobby"))
        (run (Server.step (bobFirstEnv [ahi])) (Server.start (World.ofDisk bothDisk)) bothLogin)
        (bothStore.filter (ofUser bobbyFirst (ascii "bobby"))) =
      outputs (Server.step (bobFirstEnv [ahi])) (resultOf (bobFirstEnv [ahi]))
        (ofUser bobbyFirst (ascii "bobby"))
        (run (Server.step (bobFirstEnv [ahi])) (Server.start (World.ofDisk bothDisk)) bothLogin)
        bothStore ∧
    SameForUser (bobFirstEnv [ahi]) bobbyFirst (ascii "bobby")
      (run (Server.step (bobFirstEnv [ahi])) (run (Server.step (bobFirstEnv [ahi]))
        (Server.start (World.ofDisk bothDisk)) bothLogin) bothStore)
      (run (Server.step (bobFirstEnv [ahi])) (run (Server.step (bobFirstEnv [ahi]))
        (Server.start (World.ofDisk bothDisk)) bothLogin)
        (bothStore.filter (ofUser bobbyFirst (ascii "bobby")))) := by
  refine users_do_not_interfere (fun c hc => ?_)
    (localFaults_of_noFaults (fun _ _ => rfl) fun _ _ _ _ _ => rfl) ?_ ?_ (by decide +kernel)
  · rw [bobbyFirst_eq_bob hc]
    decide +kernel
  · exact ⟨trivial, trivial, fun _ _ _ => ⟨_, rfl, rfl⟩, fun _ _ _ => ⟨_, rfl, rfl⟩,
      authAs_of_msgType _ _ (by decide), authAs_of_msgType _ _ (by decide),
      authAs_of_msgType _ _ (by decide), authAs_of_msgType _ _ (by decide), trivial,
      authAs_of_msgType _ _ (by decide), trivial⟩
  · intro e he
    simp only [bothLogin, bothStore, List.cons_append, List.nil_append, List.mem_cons,
      List.not_mem_nil, or_false] at he
    rcases he with rfl | rfl | rfl | rfl | rfl | rfl | rfl | rfl | rfl | rfl
    · trivial
    · trivial
    · exact plainItems_of_msgType rfl (Or.inl rfl)
    · exact plainItems_of_msgType rfl (Or.inl rfl)
    · exact plainItems_of_msgType rfl (Or.inr rfl)
    · exact plainItems_of_msgType rfl (Or.inr rfl)
    · exact plainItems_a signed_first
    · exact plainItems_a signed_other
    · trivial
    · exact plainItems_a signed_last

end Proofs

end RemoteBackup
