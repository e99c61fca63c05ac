import RemoteBackup.Proofs.Replies
import RemoteBackup.Proofs.SessionGate

/-!
# `RemoteBackup.Proofs.SessionLife`: what a session keeps

* `handleRequest_forward`, `handleRequest_identity`: one request. Its flags are never taken
  back, and only an AUTH that is answered OK, which an authenticated session does not get,
  changes who the session belongs to.
* `session_step`: the other events of a server leave a session alone.
* `session_keeps`: a session from any state on, by the invariant rule.
-/

set_option autoImplicit false

namespace RemoteBackup.Proofs

open Lib

/-! ### One request -/

/-- The session still belongs to the same user: its id, the name and the path of the
directory are the same. -/
def SameIdentity (u u' : User) : Prop :=
  u'.id = u.id ∧ u'.username = u.username ∧ u'.dir.map Dir.path = u.dir.map Dir.path

/-- The session belongs to `username`: the id is the digest of the name, and the directory is
the one of that id. -/
def Identified (env : Env) (u : User) (username : Bytes) : Prop :=
  u.id = md5HashString env username ∧ u.username = username ∧
    u.dir.map Dir.path = some (append (toPath env.backupRoot) (md5HashString env username))

/-- The request is an AUTH that is answered OK. -/
def EndsAuth (env : Env) (w : World) (u : User) (m : Message) : Prop :=
  m.msgType = some MsgType.auth.toByte ∧ (handleRequest env w u m).Answered .ok .none

/-- No flag of the session is taken back, and an authenticated session keeps its user. -/
structure Forward (u u' : User) : Prop where
  auth : u.isAuth = true → u'.isAuth = true
  synced : u.isSynced = true → u'.isSynced = true
  identity : u.isAuth = true → SameIdentity u u'

/-- A session has its own identity. -/
theorem SameIdentity.refl (u : User) : SameIdentity u u := ⟨rfl, rfl, rfl⟩

/-- Identity is handed on. -/
theorem SameIdentity.trans {u u' u'' : User} (h : SameIdentity u u') (h' : SameIdentity u' u'') :
    SameIdentity u u'' :=
  ⟨h'.1.trans h.1, h'.2.1.trans h.2.1, h'.2.2.trans h.2.2⟩

/-- A session has not gone back. -/
theorem Forward.refl (u : User) : Forward u u := ⟨id, id, fun _ => .refl u⟩

/-- Two steps forward are one. -/
theorem Forward.trans {u u' u'' : User} (h : Forward u u') (h' : Forward u' u'') :
    Forward u u'' where
  auth := fun hauth => h'.auth (h.auth hauth)
  synced := fun hsynced => h'.synced (h.synced hsynced)
  identity := fun hauth => (h.identity hauth).trans (h'.identity (h.auth hauth))

/-- A session with the identity of an identified one is identified. -/
theorem SameIdentity.identified {env : Env} {u u' : User} {username : Bytes}
    (h : SameIdentity u u') (hu : Identified env u username) : Identified env u' username :=
  ⟨h.1.trans hu.1, h.2.1.trans hu.2.1, h.2.2.trans hu.2.2⟩

/-- An AUTH that passed its checks names its user in the first TLV. -/
theorem firstValue_of_authenticate {env : Env} {u : User} {m : Message} {username : Bytes}
    {replies : MessageQueue} (h : taskOf env u m = .authenticate username replies) :
    FirstValue m username := by
  obtain ⟨hauth, htype, -⟩ := passed_taskOf h (by simp) (by simp)
  have hroute : route u MsgType.auth.toByte = .auth := by simp [route, hauth]
  rw [taskOf, htype] at h
  cases hnext : (TlvView.ofMessage m).nextTlv with
  | error e =>
      rw [hnext] at h
      exact absurd h (by simp [check])
  | ok next =>
      obtain ⟨more, view⟩ := next
      cases more with
      | false =>
          rw [hnext] at h
          exact absurd h (by simp [check])
      | true =>
          simp only [hnext, check, hroute, Bool.not_true, Bool.false_eq_true, if_false] at h
          -- The name is the value that the checks have read.
          have hchecked := authTask_checked env view (MessageQueue.ofType MsgType.auth.toByte)
          rw [h] at hchecked
          cases hchecked with
          | passed t ht =>
              obtain ⟨username', password, hvalue, -, htask⟩ := ht
              cases htask
              exact ⟨view, hnext, hvalue⟩

/-- A message has one first value. -/
theorem FirstValue.unique {m : Message} {x y : Bytes} (hx : FirstValue m x)
    (hy : FirstValue m y) : x = y := by
  obtain ⟨view, hnext, hvalue⟩ := hx
  obtain ⟨view', hnext', hvalue'⟩ := hy
  rw [hnext] at hnext'
  cases hnext'
  rw [hvalue] at hvalue'
  exact Except.ok.inj hvalue'

/-- A task of an AUTH is a login. -/
theorem Task.authenticate_of_msgType {t : Task} (h : t.msgType = some .auth) :
    ∃ username replies, t = .authenticate username replies := by
  cases t with
  | authenticate username replies => exact ⟨_, _, rfl⟩
  | stop | refuse | keepAlive | sync | create | update | erase => simp [Task.msgType] at h

/-- After an AUTH that is answered OK the session is authenticated and belongs to the user
whose name was sent. -/
theorem EndsAuth.identified {env : Env} {w : World} {u : User} {m : Message} {username : Bytes}
    (h : EndsAuth env w u m) (hvalue : FirstValue m username) :
    (handleRequest env w u m).user.isAuth = true ∧
      Identified env (handleRequest env w u m).user username := by
  obtain ⟨x, replies, htask⟩ := Task.authenticate_of_msgType
    (task_of_answered h.1 h.2 (fun h => absurd h (by simp)))
  obtain rfl := hvalue.unique (firstValue_of_authenticate htask)
  rw [handleRequest_eq_perform, htask]
  exact ⟨rfl, rfl, rfl, rfl⟩

/-- A request changes who the session belongs to only when it is an AUTH that is answered OK,
and then the session was not authenticated. -/
theorem handleRequest_identity (env : Env) (w : World) (u : User) (m : Message) :
    SameIdentity u (handleRequest env w u m).user ∨
      (u.isAuth = false ∧ EndsAuth env w u m) := by
  by_cases hauth : ∃ username replies, taskOf env u m = .authenticate username replies
  · obtain ⟨username, replies, htask⟩ := hauth
    obtain ⟨hisAuth, htype, -⟩ := passed_taskOf htask (by simp) (by simp)
    rw [EndsAuth, handleRequest_eq_perform, htask]
    exact Or.inr ⟨hisAuth, htype, _, rfl, rfl, rfl⟩
  left
  by_cases hsync : ∃ replies, taskOf env u m = .sync replies
  · obtain ⟨replies, htask⟩ := hsync
    obtain ⟨-, -, -, dir, synced, huser, hpath, -⟩ := handleSync_user env w u replies
    rw [handleRequest_eq_perform, htask, perform, huser]
    exact ⟨rfl, rfl, hpath⟩
  · obtain ⟨dir, huser, hpath⟩ := handleRequest_sameSession (w := w)
      (fun username replies h => hauth ⟨username, replies, h⟩) (fun replies h => hsync ⟨replies, h⟩)
    rw [huser]
    exact ⟨rfl, rfl, hpath⟩

/-- One request moves the session forward. -/
theorem handleRequest_forward (env : Env) (w : World) (u : User) (m : Message) :
    Forward u (handleRequest env w u m).user := by
  have hidentity : u.isAuth = true → SameIdentity u (handleRequest env w u m).user := by
    intro hauth
    rcases handleRequest_identity env w u m with hsame | ⟨hfresh, -⟩
    · exact hsame
    · exact absurd hauth (by simp [hfresh])
  -- AUTH and SYNC raise one flag each, and no other task touches the flags.
  by_cases hauth : ∃ username replies, taskOf env u m = .authenticate username replies
  · obtain ⟨username, replies, htask⟩ := hauth
    refine ⟨fun _ => ?_, ?_, hidentity⟩ <;> rw [handleRequest_eq_perform, htask]
    · rfl
    · exact id
  by_cases hsync : ∃ replies, taskOf env u m = .sync replies
  · obtain ⟨replies, htask⟩ := hsync
    obtain ⟨-, -, -, dir, synced, huser, -, hsynced⟩ := handleSync_user env w u replies
    refine ⟨?_, ?_, hidentity⟩ <;> rw [handleRequest_eq_perform, htask, perform, huser]
    · exact id
    · intro h
      rcases hsynced with hkept | ⟨hset, -⟩
      · exact hkept.trans h
      · exact hset
  · obtain ⟨dir, huser, -⟩ := handleRequest_sameSession (w := w)
      (fun username replies h => hauth ⟨username, replies, h⟩) (fun replies h => hsync ⟨replies, h⟩)
    refine ⟨?_, ?_, hidentity⟩ <;> rw [huser] <;> exact id

/-! ### Runs -/

/-- One event of the server leaves a session as it is, ends it, or serves a request of it. -/
theorem session_step {env : Env} {s : Server} {c : Nat} {u : User} {e : Event}
    (hc : s.sessions c = some u) (he : e ≠ .shutdown c) :
    ∃ u', (Server.step env s e).sessions c = some u' ∧ Forward u u' := by
  have hstep := step_ends env s e
  generalize Server.step env s e = s' at hstep
  cases hstep with
  | idle => exact ⟨u, hc, .refl u⟩
  | accepted c' isAuth isSynced ip hhalt hfree =>
      have hne : c ≠ c' := by
        rintro rfl
        exact absurd (hc.symm.trans hfree) (by simp)
      exact ⟨u, by simpa only [Function.update_of_ne hne] using hc, .refl u⟩
  | served c' m u' hhalt hu' =>
      by_cases hcc : c = c'
      · subst hcc
        obtain rfl : u = u' := Option.some.inj (hc.symm.trans hu')
        exact ⟨_, by simp only [Server.serve, Function.update_self],
          handleRequest_forward env s.world u m⟩
      · exact ⟨u, by simpa only [Server.serve, Function.update_of_ne hcc] using hc, .refl u⟩
  | shut c' u' hhalt hu' =>
      have hne : c ≠ c' := by
        rintro rfl
        exact he rfl
      exact ⟨u, by simpa only [Function.update_of_ne hne] using hc, .refl u⟩

/-- A session that is not shut down moves forward, whatever the server does. -/
theorem session_run {env : Env} {s : Server} {c : Nat} {u : User} {es : List Event}
    (hc : s.sessions c = some u) (hes : Event.shutdown c ∉ es) :
    ∃ u', (run (Server.step env) s es).sessions c = some u' ∧ Forward u u' := by
  have hlive : Along (Server.step env) (fun _ e => e ≠ .shutdown c) s es := by
    rw [along_iff]
    rintro pre e post rfl rfl
    exact hes (by simp)
  refine (invariant (I := fun s => ∃ u', s.sessions c = some u' ∧ Forward u u')
    ⟨u, hc, .refl u⟩ ?_ hlive).1
  rintro s e ⟨u', hu', hforward⟩ he
  obtain ⟨u'', hu'', hforward'⟩ := session_step hu' he
  exact ⟨u'', hu'', hforward.trans hforward'⟩

/-- A session only moves forward and keeps its identity. From any state of the server and the
session on, no flag is taken back. A session whose AUTH for `username` was answered OK belongs
to `username` from then on. A request that is not such an AUTH changes neither the id nor the
name nor the path of the directory. -/
theorem session_keeps (env : Env) :
    (∀ (s : Server) (c : Nat) (u : User) (es : List Event), s.sessions c = some u →
      Event.shutdown c ∉ es →
      ∃ u', (run (Server.step env) s es).sessions c = some u' ∧
        (u.isAuth = true → u'.isAuth = true) ∧ (u.isSynced = true → u'.isSynced = true)) ∧
    (∀ (s : Server) (c : Nat) (u : User) (m : Message) (username : Bytes) (es : List Event),
      s.halt = none → s.sessions c = some u → EndsAuth env s.world u m →
      FirstValue m username → Event.shutdown c ∉ es →
      ∃ u', (run (Server.step env) s (.request c m :: es)).sessions c = some u' ∧
        Identified env u' username) ∧
    ∀ (w : World) (u : User) (m : Message), ¬ EndsAuth env w u m →
      SameIdentity u (handleRequest env w u m).user := by
  refine ⟨?_, ?_, ?_⟩
  · intro s c u es hc hes
    obtain ⟨u', hu', hforward⟩ := session_run hc hes
    exact ⟨u', hu', hforward.auth, hforward.synced⟩
  · intro s c u m username es hhalt hc hends hvalue hes
    obtain ⟨hauth, hidentified⟩ := hends.identified hvalue
    have hserved : (Server.step env s (.request c m)).sessions c =
        some (handleRequest env s.world u m).user := by
      rw [step_request m hhalt hc]
      simp only [Server.serve, Function.update_self]
    -- From here on the session is authenticated, and keeps its user.
    obtain ⟨u', hu', hforward⟩ := session_run hserved hes
    exact ⟨u', hu', (hforward.identity hauth).identified hidentified⟩
  · intro w u m hends
    rcases handleRequest_identity env w u m with hsame | ⟨-, hends'⟩
    · exact hsame
    · exact absurd hends' hends

/-- `bobby` authenticates, sends a SYNC, and tries to authenticate again. -/
theorem session_keeps_bobby :
    ∃ u', (run (Server.step (bobbyAndBobEnv [])) (acceptedServer false false)
        [.request 0 bobbyAuth, .request 0 (bareMessage .sync), .request 0 bobbyAuth]).sessions 0 =
          some u' ∧
      Identified (bobbyAndBobEnv []) u' (ascii "bobby") :=
  (session_keeps (bobbyAndBobEnv [])).2.1 (acceptedServer false false) 0
    (User.fresh false false (ascii "127.0.0.1")) bobbyAuth (ascii "bobby") _ rfl
    (by simp [acceptedServer]; rfl) ⟨rfl, by decide +kernel⟩ ⟨_, rfl, rfl⟩ (by simp)

end RemoteBackup.Proofs
