import RemoteBackup.Core.Network
import RemoteBackup.Lib.Refinement
import RemoteBackup.Proofs.Isolation
import RemoteBackup.Proofs.SessionLife
import RemoteBackup.Proofs.SyncedView
import RemoteBackup.Proofs.Wire

/-!
# `RemoteBackup.Proofs.NetworkRuns`: the network refines the server

A network takes many events to a request, and those of its connections interleave. Seen from the
world and the sessions it is the server that takes a request as one event.

A connection that was timed out while an operation is pending can be shut down a second time, by
an expiry that was queued behind the first. Its user may be on another connection by then, whose
stream goes. To the server this is a visit: a connection that presents the credentials of the
user once more and shuts down. Number 0 is kept for the visits, and connection `c` has number
`c + 1`.

* `Sound`: the invariant of the network alone. A session with a name has presented credentials
  for it.
* `Abstracts`, `Follows`: a server with the world and the sessions of the network, whose requests
  are those that the connections have served.
* `network_refinement`: one lemma for each kind of effect, then every event.
* `network_connection`: every connection is where a run of its own leads.
* `network_refines_server`: the runs, down to the bytes of each client.
* `network_streams_owned`: an invariant that comes over, and with it what the session has behind
  it (`Earned`).
-/

set_option autoImplicit false

namespace RemoteBackup.Proofs

open Lib

variable {env : Env}

/-! ### Credentials that were presented -/

/-- A message that gets a new connection the id of this session. -/
def Admits (env : Env) (id : Bytes) (m : Message) : Prop :=
  ∀ w, ∃ u r, handleRequest env w (User.fresh false false []) m = ⟨w, u, .ok r⟩ ∧ u.id = id

/-- A session with an id has presented credentials for it, and a session without one has no
directory. -/
structure Known (env : Env) (u : User) : Prop where
  admitted : u.id ≠ [] → ∃ m, Admits env u.id m
  noDir : u.id = [] → u.dir = none

/-- A new session knows no user. -/
theorem known_fresh (isAuth isSynced : Bool) (ip : Bytes) :
    Known env (User.fresh isAuth isSynced ip) :=
  ⟨fun h => absurd rfl h, fun _ => rfl⟩

/-- The checks of an AUTH look at nothing of the session but the flag. -/
theorem taskOf_unauthenticated {u v : User} (hu : u.isAuth = false) (hv : v.isAuth = false)
    (m : Message) : taskOf env u m = taskOf env v m := by
  have hroute : ∀ msgType, route u msgType = route v msgType := by
    intro msgType
    simp [route, hu, hv]
  unfold taskOf
  cases m.msgType with
  | none => rfl
  | some msgType =>
      dsimp only
      congr 1
      funext next
      obtain ⟨more, view⟩ := next
      dsimp only
      rw [hroute]
      have hnot : route v msgType = .auth ∨ route v msgType = .rejected := by
        simp only [route, hv, Bool.not_false, if_true]
        split
        · exact Or.inl rfl
        · exact Or.inr rfl
      rcases hnot with h | h <;> rw [h]

/-- An AUTH that is answered OK admits its session. -/
theorem EndsAuth.admits {w : World} {u : User} {m : Message} (h : EndsAuth env w u m)
    (hauth : u.isAuth = false) : Admits env (handleRequest env w u m).user.id m := by
  obtain ⟨username, replies, htask⟩ := Task.authenticate_of_msgType
    (task_of_answered h.1 h.2 (fun h => absurd h (by simp)))
  intro w'
  have hfresh : taskOf env (User.fresh false false []) m = .authenticate username replies :=
    (taskOf_unauthenticated rfl hauth m).trans htask
  rw [handleRequest_eq_perform env w, htask, handleRequest_eq_perform, hfresh]
  exact ⟨_, _, rfl, rfl⟩

/-- A request leaves a session known, or makes it so. -/
theorem Known.request {u : User} (h : Known env u) (w : World) (m : Message) :
    Known env (handleRequest env w u m).user := by
  rcases handleRequest_identity env w u m with ⟨hid, -, hdir⟩ | ⟨hauth, hends⟩
  · refine ⟨fun hne => ?_, fun hnil => ?_⟩
    · rw [hid] at hne ⊢
      exact h.admitted hne
    · rw [h.noDir (hid.symm.trans hnil)] at hdir
      exact Option.map_eq_none_iff.mp hdir
  · refine ⟨fun _ => ⟨m, hends.admits hauth⟩, fun hnil => ?_⟩
    -- The digest of a name is never empty.
    obtain ⟨username, replies, htask⟩ := Task.authenticate_of_msgType
      (task_of_answered hends.1 hends.2 (fun h => absurd h (by simp)))
    rw [handleRequest_eq_perform, htask] at hnil
    exact absurd hnil (md5ToString_plain _).1

/-- A world is its tree, its streams and its calls. -/
theorem world_eq {w w' : World} (hdisk : w.disk = w'.disk) (hstreams : w.streams = w'.streams)
    (hcalls : w.calls = w'.calls) : w = w' := by
  cases w
  cases w'
  cases hdisk
  cases hstreams
  cases hcalls
  rfl

/-- A user without a stream loses nothing. -/
theorem eraseStream_of_none {w : World} {id : Bytes} (h : w.streams id = none) :
    w.eraseStream id = w := by
  have hflush : w.flush id = w := by
    rw [World.flush, World.drain]
    split
    · rename_i hs
      rw [h] at hs
      cases hs
    · rfl
  refine world_eq ?_ ?_ ?_
  · show (w.flush id).disk = w.disk
    rw [hflush]
  · show Function.update (w.flush id).streams id none = w.streams
    rw [hflush, ← h, Function.update_eq_self]
  · show (w.flush id).calls = w.calls
    rw [hflush]

/-! ### The network alone -/

/-- What holds in every state of a network. -/
structure Sound (env : Env) (n : Network) : Prop where
  phase : ∀ c s, n.conns c = some s → Phase s
  known : ∀ c s, n.conns c = some s → Known env s.user_
  running : n.halt = none → ∀ c s, n.conns c = some s → s.halt = none
  unused : ∀ c, n.accepted ≤ c → n.conns c = none
  unnamed : n.world.streams [] = none

/-- Before its first connection a network is sound. -/
theorem sound_start (disk : Disk) : Sound env (Network.start (World.ofDisk disk)) where
  phase := by simp [Network.start]
  known := by simp [Network.start]
  running := by simp [Network.start]
  unused := fun _ _ => rfl
  unnamed := rfl

/-- The network after an event of connection `c`. -/
def afterEvent (n : Network) (c : Nat) (s : Cycle) : Network :=
  { n with world := s.world, conns := Function.update n.conns c (some s), halt := s.halt }

/-- The cases of a network's event. -/
inductive NetEnds (env : Env) (n : Network) : Network.Event → Network → Prop
  | idle (e : Network.Event) : NetEnds env n e n
  | signal : NetEnds env n .signal { n with stopped := true }
  | broken (e : Network.Event) (h : Halt) (hhalt : n.halt = none) :
      NetEnds env n e { n with halt := some h }
  | accepted (ip : Bytes) (isAuth isSynced : Bool) (stream : Bytes) (hhalt : n.halt = none) :
      NetEnds env n (.accept (some ip) isAuth isSynced stream)
        { n with
          conns := Function.update n.conns n.accepted
            (some (Cycle.start n.world isAuth isSynced ip stream))
          accepted := n.accepted + 1 }
  | moved (c : Nat) (s : Cycle) (e : Cycle.Event) (hhalt : n.halt = none)
      (hc : n.conns c = some s) (hpending : s.pending ≠ []) (he : ∀ w, e ≠ .elsewhere w) :
      NetEnds env n (.connection c e)
        (afterEvent n c (Cycle.step env { s with world := n.world } e))

/-- Every event has one of these ends. -/
theorem network_ends (env : Env) (n : Network) (e : Network.Event) :
    NetEnds env n e (Network.step env n e) := by
  unfold Network.step
  split
  · exact .idle e
  rename_i hgo
  obtain ⟨-, hhalt⟩ : n.stopped = false ∧ n.halt = none := by simpa using hgo
  cases e with
  | accept endpoint isAuth isSynced stream =>
      cases endpoint with
      | none => exact .broken _ _ hhalt
      | some ip => exact .accepted ip isAuth isSynced stream hhalt
  | acceptFailed => exact .idle _
  | signal => exact .signal
  | connection c e =>
      dsimp only
      cases hc : n.conns c with
      | none => exact .idle _
      | some s =>
          dsimp only
          unfold Network.connectionStep
          split
          · exact .idle _
          split
          · unfold Network.dangling
            split
            · split
              · exact .idle _
              · exact .broken _ _ hhalt
              · exact .idle _
            · exact .idle _
          · rename_i hpending
            split
            · exact .idle _
            · rename_i he
              exact .moved c s e hhalt hc hpending he

/-- A connection, in the world as it is now, keeps its invariants at an event. -/
theorem Sound.effect {n : Network} (h : Sound env n) {c : Nat} {s : Cycle}
    (hhalt : n.halt = none) (hc : n.conns c = some s) (hpending : s.pending ≠ [])
    {e : Cycle.Event} (he : ∀ w, e ≠ .elsewhere w) :
    Phase (Cycle.step env { s with world := n.world } e) ∧
      Effect env { s with world := n.world } (Cycle.step env { s with world := n.world } e) := by
  have hphase := (h.phase c s hc).withTimer s.armed s.queued n.world
  exact ⟨phase_step env _ e hphase,
    cycle_effect hphase (h.running hhalt c s hc) hpending he⟩

/-- What an event of a connection does to the session and to the stream without a name. -/
theorem Effect.known {s s' : Cycle} (heffect : Effect env s s') (hknown : Known env s.user_)
    (hunnamed : s.world.streams [] = none) :
    Known env s'.user_ ∧ s'.world.streams [] = none := by
  cases heffect with
  | silent hsame => exact ⟨hsame.user ▸ hknown, hsame.world ▸ hunnamed⟩
  | closed hworld huser =>
      refine ⟨huser ▸ hknown, ?_⟩
      rw [hworld]
      by_cases hnil : s.user_.id = []
      · rw [hnil]
        exact World.eraseStream_streams_self _ _
      · rwa [World.eraseStream_streams_of_ne _ _ (Ne.symm hnil)]
  | served m _ _ hworld huser =>
      rw [hworld, huser]
      refine ⟨hknown.request _ m, ?_⟩
      -- A request touches the stream of its own session only, and without an id it has no
      -- directory to work in.
      by_contra hne
      obtain ⟨hid, -⟩ := handleRequest_streams (hunnamed ▸ hne :
        (handleRequest env s.world s.user_ m).world.streams [] ≠ s.world.streams [])
      rw [handleRequest_noDir (hknown.noDir hid.symm)] at hne
      exact hne hunnamed

/-- A property of the connections, after one of them has changed. -/
theorem conns_update {P : Nat → Cycle → Prop} {conns : Nat → Option Cycle} {c : Nat} {s' : Cycle}
    (hold : ∀ c s, conns c = some s → P c s) (hnew : P c s') (k : Nat) (t : Cycle)
    (ht : Function.update conns c (some s') k = some t) : P k t := by
  by_cases hkc : k = c
  · subst hkc
    rw [Function.update_self] at ht
    exact Option.some.inj ht ▸ hnew
  · rw [Function.update_of_ne hkc] at ht
    exact hold k t ht

/-- One event. What a connection does to the world, it does for its own user. -/
theorem sound_step {n : Network} {e : Network.Event} (h : Sound env n) :
    Sound env (Network.step env n e) := by
  have hends := network_ends env n e
  generalize Network.step env n e = n' at hends
  cases hends with
  | idle => exact h
  | signal => exact ⟨h.phase, h.known, h.running, h.unused, h.unnamed⟩
  | broken => exact ⟨h.phase, h.known, fun hnone => absurd hnone (by simp), h.unused, h.unnamed⟩
  | accepted ip isAuth isSynced stream hhalt =>
      refine ⟨conns_update h.phase (phase_start _ _ _ _ _),
        conns_update h.known (known_fresh _ _ _),
        fun _ => conns_update (h.running hhalt) rfl, fun c hc => ?_, h.unnamed⟩
      have hle : n.accepted + 1 ≤ c := hc
      show Function.update n.conns n.accepted _ c = none
      rw [Function.update_of_ne (by omega)]
      exact h.unused c (by omega)
  | moved c s e hhalt hc hpending he =>
      obtain ⟨hphase, heffect⟩ := h.effect hhalt hc hpending he
      obtain ⟨hknown, hunnamed⟩ := heffect.known (h.known c s hc) h.unnamed
      generalize Cycle.step env { s with world := n.world } e = s' at hphase hknown hunnamed ⊢
      refine ⟨conns_update h.phase hphase, conns_update h.known hknown,
        fun hnone => conns_update (h.running hhalt) hnone, fun c' hc' => ?_, hunnamed⟩
      have hne : c' ≠ c := by
        rintro rfl
        rw [h.unused c' hc'] at hc
        cases hc
      exact (Function.update_of_ne hne _ _).trans (h.unused c' hc')

/-! ### The server behind a network -/

/-- The session of a connection that was not shut down. -/
def sessionOf (s : Cycle) : Option User := if IsOpen s then some s.user_ else none

/-- A server with the world and the sessions of the network. The network stops where the server
does. -/
structure Abstracts (n : Network) (t : Server) : Prop where
  world : t.world = n.world
  sessions : ∀ c, t.sessions (c + 1) = (n.conns c).bind sessionOf
  spare : t.sessions 0 = none
  halt : ∀ h, t.halt = some h → n.halt = some h

/-- What an event of the server says to one connection: a request that is served, and the
messages of its reply. -/
def exchanged (env : Env) (c : Nat) (t : Server) : Event → List (Message × List Message)
  | .request c' m =>
      if c' = c ∧ t.halt = none then
        ((t.sessions c).map fun u => (m, messagesOf (handleRequest env t.world u m).result)).toList
      else []
  | _ => []

/-- The requests of one connection and their replies in a run of the server. -/
def exchangesOf (env : Env) (c : Nat) : Server → List Event → List (Message × List Message)
  | _, [] => []
  | t, e :: es => exchanged env c t e ++ exchangesOf env c (Server.step env t e) es

/-- The network is where a server is after these events, and each connection has served the
requests that they hold for it, with the same replies. -/
structure Follows (env : Env) (t : Server) (n : Network) (fs : List Event) : Prop where
  sound : Sound env n
  abstracts : Abstracts n (run (Server.step env) t fs)
  exchanges : ∀ c, exchangesOf env (c + 1) t fs =
    ((n.conns c).map fun s => exchangesIn s.log).getD []

/-- The exchanges of a run are those of its parts. -/
theorem exchangesOf_append (env : Env) (c : Nat) (t : Server) (es fs : List Event) :
    exchangesOf env c t (es ++ fs) =
      exchangesOf env c t es ++ exchangesOf env c (run (Server.step env) t es) fs := by
  induction es generalizing t with
  | nil => rfl
  | cons e es ih =>
      rw [List.cons_append, exchangesOf, exchangesOf, ih, List.append_assoc]
      rfl

/-- Events of other numbers say nothing to a connection. -/
theorem exchangesOf_visit {c k : Nat} (h : k ≠ c) (t : Server) (isAuth isSynced : Bool)
    (ip : Bytes) (m : Message) :
    exchangesOf env c t [.accept k isAuth isSynced ip, .request k m, .shutdown k] = [] := by
  simp [exchangesOf, exchanged, h]

/-- While the network runs, so does the server. -/
theorem Abstracts.running {n : Network} {t : Server} (h : Abstracts n t) (hhalt : n.halt = none) :
    t.halt = none := by
  cases ht : t.halt with
  | none => rfl
  | some e =>
      rw [h.halt e ht] at hhalt
      cases hhalt

/-- A connection that is open has its session on the server. -/
theorem Abstracts.session {n : Network} {t : Server} (h : Abstracts n t) {c : Nat} {s : Cycle}
    (hc : n.conns c = some s) (hopen : IsOpen s) : t.sessions (c + 1) = some s.user_ := by
  rw [h.sessions, hc, Option.bind_some, sessionOf, if_pos hopen]

/-- An event of connection `c` and what the server does for it. -/
theorem Abstracts.moved {n : Network} {t t' : Server} {c : Nat} {s : Cycle}
    (h : Abstracts n t) (hworld : t'.world = s.world)
    (hself : t'.sessions (c + 1) = sessionOf s)
    (hothers : ∀ k, k ≠ c + 1 → t'.sessions k = t.sessions k)
    (hhalt : ∀ e, t'.halt = some e → s.halt = some e) : Abstracts (afterEvent n c s) t' where
  world := hworld
  sessions := by
    intro c'
    show _ = (Function.update n.conns c (some s) c').bind sessionOf
    by_cases hcc : c' = c
    · subst hcc
      rw [hself, Function.update_self]
      rfl
    · rw [hothers _ (by omega), h.sessions, Function.update_of_ne hcc]
  spare := (hothers 0 (by omega)).trans h.spare
  halt := hhalt

/-- The steps of a server that the network takes for one of its own. -/
theorem step_accept {t : Server} {c : Nat} (isAuth isSynced : Bool) (ip : Bytes)
    (hhalt : t.halt = none) (hc : t.sessions c = none) :
    Server.step env t (.accept c isAuth isSynced ip) =
      { t with
        sessions := Function.update t.sessions c (some (User.fresh isAuth isSynced ip)) } := by
  simp [Server.step, hhalt, hc]

/-- A shutdown on a server that runs takes the session and its stream away. -/
theorem step_shutdown {t : Server} {c : Nat} {u : User} (hhalt : t.halt = none)
    (hc : t.sessions c = some u) :
    Server.step env t (.shutdown c) =
      { t with
        world := t.world.eraseStream u.id
        sessions := Function.update t.sessions c none } := by
  simp [Server.step, hhalt, hc]

/-- A visit erases the stream of the user whose credentials it presents, and nothing else. -/
theorem run_visit {t : Server} {id : Bytes} {m : Message} (hhalt : t.halt = none)
    (hspare : t.sessions 0 = none) (hm : Admits env id m) :
    run (Server.step env) t [.accept 0 false false [], .request 0 m, .shutdown 0] =
      { t with world := t.world.eraseStream id } := by
  obtain ⟨u, r, hserved, hid⟩ := hm t.world
  let visitor := { t with
    sessions := Function.update t.sessions 0 (some (User.fresh false false [])) }
  have haccept : Server.step env t (.accept 0 false false []) = visitor :=
    step_accept _ _ _ hhalt hspare
  have hrequest : Server.step env visitor (.request 0 m) =
      { t with sessions := Function.update t.sessions 0 (some u), halt := none } := by
    have hsession : visitor.sessions 0 = some (User.fresh false false []) :=
      Function.update_self 0 _ t.sessions
    rw [@step_request env visitor 0 _ m hhalt hsession, Server.serve, hserved]
    simp only [visitor, Function.update_idem]
  show Server.step env (Server.step env (Server.step env t (.accept 0 false false []))
    (.request 0 m)) (.shutdown 0) = _
  rw [haccept, hrequest, @step_shutdown env _ 0 u rfl (Function.update_self 0 _ t.sessions), hid]
  simp only [Function.update_idem, ← hspare, Function.update_eq_self, hhalt]

/-! ### The refinement -/

/-- A network from which nothing can be told has the same server. -/
theorem Abstracts.silent {n : Network} {t : Server} {c : Nat} {s s' : Cycle}
    (h : Abstracts n t) (hhalt : n.halt = none) (hc : n.conns c = some s)
    (hsame : Same { s with world := n.world } s') : Abstracts (afterEvent n c s') t := by
  refine h.moved ?_ ?_ (fun _ _ => rfl) ?_
  · rw [hsame.world, h.world]
  · rw [h.sessions, hc, Option.bind_some, sessionOf, sessionOf, hsame.user]
    exact if_congr hsame.isOpen.symm rfl rfl
  · intro e he
    rw [h.running hhalt] at he
    cases he

/-- A shutdown of a connection that is open. -/
theorem Abstracts.closed {n : Network} {t : Server} {c : Nat} {s s' : Cycle}
    (h : Abstracts n t) (hhalt : n.halt = none) (hc : n.conns c = some s) (hopen : IsOpen s)
    (hworld : s'.world = n.world.eraseStream s.user_.id) (hclosed : ¬ IsOpen s') :
    Abstracts (afterEvent n c s') (Server.step env t (.shutdown (c + 1))) := by
  have hsession := h.session hc hopen
  rw [step_shutdown (h.running hhalt) hsession]
  refine h.moved ?_ ?_ (fun k hk => ?_) ?_
  · rw [hworld, h.world]
  · rw [sessionOf, if_neg hclosed]
    exact Function.update_self ..
  · exact Function.update_of_ne hk _ _
  · intro e he
    rw [h.running hhalt] at he
    cases he

/-- A second shutdown is a visit, or nothing where the session has no id. -/
theorem Abstracts.closed_again {n : Network} {t : Server} {c : Nat} {s s' : Cycle}
    (h : Abstracts n t) (hsound : Sound env n) (hhalt : n.halt = none) (hc : n.conns c = some s)
    (hnot : ¬ IsOpen s) (hworld : s'.world = n.world.eraseStream s.user_.id)
    (hclosed : ¬ IsOpen s') :
    ∃ gs, Abstracts (afterEvent n c s') (run (Server.step env) t gs) ∧
      ∀ c, exchangesOf env (c + 1) t gs = [] := by
  have hsession : t.sessions (c + 1) = sessionOf s' := by
    rw [h.sessions, hc, Option.bind_some, sessionOf, if_neg hnot, sessionOf, if_neg hclosed]
  have hrunning : ∀ e, t.halt = some e → s'.halt = some e := by
    intro e he
    rw [h.running hhalt] at he
    cases he
  by_cases hid : s.user_.id = []
  · refine ⟨[], h.moved ?_ hsession (fun _ _ => rfl) hrunning, fun _ => rfl⟩
    show t.world = s'.world
    rw [hworld, hid, eraseStream_of_none hsound.unnamed]
    exact h.world
  · obtain ⟨m, hm⟩ := (hsound.known c s hc).admitted hid
    refine ⟨[.accept 0 false false [], .request 0 m, .shutdown 0], ?_,
      fun c => exchangesOf_visit (by omega) _ _ _ _ m⟩
    rw [run_visit (h.running hhalt) h.spare hm]
    refine h.moved ?_ hsession (fun _ _ => rfl) hrunning
    rw [hworld, h.world]

/-- A request that a connection serves is a request of the server. -/
theorem Abstracts.served {n : Network} {t : Server} {c : Nat} {s s' : Cycle} {m : Message}
    (h : Abstracts n t) (hhalt : n.halt = none) (hc : n.conns c = some s) (hopen : IsOpen s)
    (hopen' : IsOpen s') (hworld : s'.world = (handleRequest env n.world s.user_ m).world)
    (huser : s'.user_ = (handleRequest env n.world s.user_ m).user)
    (hhalt' : s'.halt =
      match (handleRequest env n.world s.user_ m).result with
      | .ok _ => none
      | .error h => some h) :
    Abstracts (afterEvent n c s') (Server.step env t (.request (c + 1) m)) := by
  have hsession := h.session hc hopen
  rw [step_request m (h.running hhalt) hsession, Server.serve, h.world]
  refine h.moved hworld.symm ?_ (fun k hk => ?_) ?_
  · rw [sessionOf, if_pos hopen', huser]
    exact Function.update_self ..
  · exact Function.update_of_ne hk _ _
  · intro e he
    rw [hhalt']
    exact he

/-- Every event of the network is some events of the server, or none. -/
theorem network_refinement (env : Env) (t : Server) :
    Refinement (Network.step env) (Follows env t) where
  extends_ := by
    rintro n fs e ⟨hsound, habstracts, hexchanges⟩
    have hends := network_ends env n e
    have hsound' := @sound_step env n e hsound
    generalize Network.step env n e = n' at hends hsound' ⊢
    -- A history that is not extended.
    have hstutter : Abstracts n' (run (Server.step env) t fs) →
        (∀ c, exchangesOf env (c + 1) t fs =
          ((n'.conns c).map fun s => exchangesIn s.log).getD []) →
        ∃ gs, Follows env t n' (fs ++ gs) := by
      intro habstracts' hexchanges'
      refine ⟨[], hsound', ?_, ?_⟩ <;> rw [List.append_nil]
      · exact habstracts'
      · exact hexchanges'
    cases hends with
    | idle => exact hstutter habstracts hexchanges
    | signal =>
        exact hstutter ⟨habstracts.world, habstracts.sessions, habstracts.spare, habstracts.halt⟩
          hexchanges
    | broken _ hh hhalt =>
        refine hstutter ⟨habstracts.world, habstracts.sessions, habstracts.spare, ?_⟩ hexchanges
        intro e he
        rw [habstracts.running hhalt] at he
        cases he
    | accepted ip isAuth isSynced stream hhalt =>
        have hfree : n.conns n.accepted = none := hsound.unused _ (Nat.le_refl _)
        have hnone : (run (Server.step env) t fs).sessions (n.accepted + 1) = none := by
          rw [habstracts.sessions, hfree]
          rfl
        refine ⟨[.accept (n.accepted + 1) isAuth isSynced ip], hsound', ?_, fun c => ?_⟩
        · rw [run_append, run_singleton, step_accept _ _ _ (habstracts.running hhalt) hnone]
          refine ⟨habstracts.world, fun c => ?_, ?_, habstracts.halt⟩
          · dsimp only
            by_cases hcc : c = n.accepted
            · subst hcc
              rw [Function.update_self, Function.update_self]
              rfl
            · rw [Function.update_of_ne (by omega), Function.update_of_ne hcc]
              exact habstracts.sessions c
          · dsimp only
            rw [Function.update_of_ne (by omega)]
            exact habstracts.spare
        · rw [exchangesOf_append, hexchanges]
          show _ ++ [] = ((Function.update n.conns n.accepted _ c).map _).getD []
          by_cases hcc : c = n.accepted
          · subst hcc
            rw [hfree, Function.update_self]
            rfl
          · rw [Function.update_of_ne hcc, List.append_nil]
    | moved c s e hhalt hc hpending he =>
        obtain ⟨-, heffect⟩ := hsound.effect hhalt hc hpending he
        generalize Cycle.step env { s with world := n.world } e = s' at heffect hsound' hstutter ⊢
        -- The requests of the other connections stay, so the new ones must be those of `c`.
        have hserves : ∀ gs,
            (∀ k, k ≠ c → exchangesOf env (k + 1) (run (Server.step env) t fs) gs = []) →
            exchangesIn s'.log = exchangesIn s.log ++
              exchangesOf env (c + 1) (run (Server.step env) t fs) gs → ∀ k,
            exchangesOf env (k + 1) t (fs ++ gs) =
              (((afterEvent n c s').conns k).map fun s => exchangesIn s.log).getD [] := by
          intro gs hother hself k
          rw [exchangesOf_append, hexchanges]
          show _ = ((Function.update n.conns c (some s') k).map _).getD []
          by_cases hkc : k = c
          · subst hkc
            rw [hc, Function.update_self]
            exact hself.symm
          · rw [hother k hkc, Function.update_of_ne hkc, List.append_nil]
        cases heffect with
        | silent hsame =>
            refine ⟨[], hsound', ?_, hserves [] (fun _ _ => rfl) ?_⟩
            · rw [List.append_nil]
              exact habstracts.silent hhalt hc hsame
            · exact hsame.served.trans (List.append_nil _).symm
        | closed hworld _ hclosed hserved =>
            by_cases hopen : IsOpen s
            · refine ⟨[.shutdown (c + 1)], hsound', ?_, hserves _ (fun _ _ => rfl) ?_⟩
              · rw [run_append, run_singleton]
                exact habstracts.closed hhalt hc hopen hworld hclosed
              · exact hserved.trans (List.append_nil _).symm
            · obtain ⟨gs, habstracts', hnone⟩ :=
                habstracts.closed_again hsound hhalt hc hopen hworld hclosed
              refine ⟨gs, hsound', ?_, hserves gs (fun k _ => hnone k) ?_⟩
              · rw [run_append]
                exact habstracts'
              · rw [hnone c, List.append_nil]
                exact hserved
        | served m hopen hopen' hworld huser hserved hhalt' =>
            refine ⟨[.request (c + 1) m], hsound', ?_, hserves _ (fun k hk => ?_) ?_⟩
            · rw [run_append, run_singleton]
              exact habstracts.served hhalt hc hopen hopen' hworld huser hhalt'
            · simp [exchangesOf, exchanged, Ne.symm hk]
            · have hsession := habstracts.session hc hopen
              rw [hserved, exchangesOf, exchanged, if_pos ⟨rfl, habstracts.running hhalt⟩, hsession,
                habstracts.world]
              rfl

/-- A network without connections follows a server without sessions. -/
theorem follows_start (env : Env) (disk : Disk) :
    Follows env (Server.start (World.ofDisk disk)) (Network.start (World.ofDisk disk)) [] where
  sound := sound_start disk
  abstracts := ⟨rfl, fun _ => rfl, rfl, fun h hh => by cases hh⟩
  exchanges := fun _ => rfl

/-! ### One connection of a network -/

/-- What holds of every connection, when it begins and after each of its events. -/
theorem conns_step {P : Nat → Cycle → Prop} {n : Network} {e : Network.Event}
    (hsound : Sound env n) (h : ∀ c s, n.conns c = some s → P c s)
    (hnew : ∀ ip isAuth isSynced stream, e = .accept (some ip) isAuth isSynced stream →
      P n.accepted (Cycle.start n.world isAuth isSynced ip stream))
    (hstep : ∀ c s w e, P c s → s.halt = none → P c (Cycle.step env { s with world := w } e)) :
    ∀ c s, (Network.step env n e).conns c = some s → P c s := by
  have hends := network_ends env n e
  generalize Network.step env n e = n' at hends ⊢
  cases hends with
  | idle | signal | broken => exact h
  | accepted ip isAuth isSynced stream => exact conns_update h (hnew ip isAuth isSynced stream rfl)
  | moved c s e hhalt hc =>
      exact conns_update h (hstep c s n.world e (h c s hc) (hsound.running hhalt c s hc))

/-- The connection with number `c` was accepted in this run, and its client sends `stream`. -/
def Accepted (env : Env) (disk : Disk) (es : List Network.Event) (c : Nat) (stream : Bytes) :
    Prop :=
  ∃ pre ip isAuth isSynced post, es = pre ++ .accept (some ip) isAuth isSynced stream :: post ∧
    (run (Network.step env) (Network.start (World.ofDisk disk)) pre).accepted = c

/-- A network is made of its connections: every connection is where a run of its own leads, in
which the world changes elsewhere between its events. -/
theorem network_connection (env : Env) (disk : Disk) (es : List Network.Event) :
    ∀ c s, (run (Network.step env) (Network.start (World.ofDisk disk)) es).conns c = some s →
      ∃ w isAuth isSynced ip stream cs, Accepted env disk es c stream ∧
        s = run (Cycle.step env) (Cycle.start w isAuth isSynced ip stream) cs := by
  induction es using List.reverseRecOn with
  | nil =>
      intro c s hc
      cases hc
  | append_singleton es e ih =>
      rw [run_append, run_singleton]
      refine conns_step (invariant_always (sound_start disk) (fun _ _ => sound_step) es).1
        (fun c s hc => ?_) (fun ip isAuth isSynced stream he => ?_) ?_
      · obtain ⟨w, isAuth, isSynced, ip, stream, cs, haccepted, hs⟩ := ih c s hc
        obtain ⟨pre, ip', isAuth', isSynced', post, rfl, hcount⟩ := haccepted
        refine ⟨w, isAuth, isSynced, ip, stream, cs, ?_, hs⟩
        exact ⟨pre, ip', isAuth', isSynced', post ++ [e], by simp, hcount⟩
      · subst he
        exact ⟨_, isAuth, isSynced, ip, stream, [], ⟨es, ip, isAuth, isSynced, [], rfl, rfl⟩, rfl⟩
      · rintro c s w' e' ⟨w, isAuth, isSynced, ip, stream, cs, haccepted, rfl⟩ hhalt
        refine ⟨w, isAuth, isSynced, ip, stream, cs ++ [.elsewhere w', e'], haccepted, ?_⟩
        rw [run_append]
        show _ = Cycle.step env (Cycle.step env _ (.elsewhere w')) e'
        congr 1
        rw [Cycle.step, if_neg (by simp [hhalt])]

/-! ### What a session has behind it -/

/-- The exchange is that of a request that was answered OK: its messages are those of a reply
that carries the status OK and no error. -/
def GivenOk (env : Env) (x : Message × List Message) : Prop :=
  ∃ w u r, (handleRequest env w u x.1).result = .ok r ∧ r.status = .ok ∧ r.err = .none ∧
    x.2 = r.replies.msgs

/-- Among these exchanges is an AUTH that was answered OK. -/
def PassedAuth (env : Env) (xs : List (Message × List Message)) : Prop :=
  ∃ x ∈ xs, x.1.msgType = some MsgType.auth.toByte ∧ GivenOk env x

/-- Among these exchanges is a SYNC that was answered OK, and before it an AUTH. -/
def PassedSync (env : Env) (xs : List (Message × List Message)) : Prop :=
  ∃ before x after, xs = before ++ x :: after ∧ x.1.msgType = some MsgType.sync.toByte ∧
    GivenOk env x ∧ PassedAuth env before

/-- More exchanges take nothing away. -/
theorem PassedAuth.append {xs : List (Message × List Message)} (h : PassedAuth env xs)
    (ys : List (Message × List Message)) : PassedAuth env (xs ++ ys) := by
  obtain ⟨x, hx, hpassed⟩ := h
  exact ⟨x, List.mem_append_left ys hx, hpassed⟩

/-- More exchanges take nothing away. -/
theorem PassedSync.append {xs : List (Message × List Message)} (h : PassedSync env xs)
    (ys : List (Message × List Message)) : PassedSync env (xs ++ ys) := by
  obtain ⟨before, x, after, rfl, hpassed⟩ := h
  exact ⟨before, x, after ++ ys, by simp, hpassed⟩

/-- The flags of the session were earned on this connection. -/
structure Earned (env : Env) (s : Cycle) : Prop where
  auth : s.user_.isAuth = true → PassedAuth env (exchangesIn s.log)
  sync : s.user_.isSynced = true → PassedSync env (exchangesIn s.log)

/-- Only a request sets a flag, and it is the one that earns it. -/
theorem Effect.earned {s s' : Cycle} (heffect : Effect env s s') (h : Earned env s) :
    Earned env s' := by
  cases heffect with
  | silent hsame =>
      constructor
      · rw [hsame.user, hsame.served]
        exact h.auth
      · rw [hsame.user, hsame.served]
        exact h.sync
  | closed _ huser _ hserved =>
      constructor
      · rw [huser, hserved]
        exact h.auth
      · rw [huser, hserved]
        exact h.sync
  | served m _ _ _ huser hserved =>
      obtain ⟨hauth, hsync⟩ := handleRequest_flags env s.world s.user_ m
      have hanswered : (handleRequest env s.world s.user_ m).Answered .ok .none →
          GivenOk env (m, messagesOf (handleRequest env s.world s.user_ m).result) := by
        rintro ⟨r, hr, hstatus, herr⟩
        exact ⟨s.world, s.user_, r, hr, hstatus, herr, by rw [hr]; rfl⟩
      constructor
      case auth =>
        rw [huser, hserved]
        intro hset
        rcases hauth hset with hold | ⟨htype, hok⟩
        · exact (h.auth hold).append _
        · exact ⟨_, by simp, htype, hanswered hok⟩
      case sync =>
        rw [huser, hserved]
        intro hset
        rcases hsync hset with hold | ⟨htype, hold, hok⟩
        · exact (h.sync hold).append _
        · exact ⟨_, _, [], rfl, htype, hanswered hok, h.auth hold⟩

/-- A connection that is accepted has both flags clear. -/
def FlagsDown : Network.Event → Prop
  | .accept _ isAuth isSynced _ => isAuth = false ∧ isSynced = false
  | _ => True

/-- Where new connections have clear flags, every connection has earned its own. -/
theorem earned_step {n : Network} {e : Network.Event} (hsound : Sound env n)
    (h : ∀ c s, n.conns c = some s → Earned env s) (he : FlagsDown e) :
    ∀ c s, (Network.step env n e).conns c = some s → Earned env s := by
  have hends := network_ends env n e
  generalize Network.step env n e = n' at hends ⊢
  cases hends with
  | idle | signal | broken => exact h
  | accepted ip isAuth isSynced stream =>
      obtain ⟨rfl, rfl⟩ := he
      refine conns_update h ⟨fun hset => ?_, fun hset => ?_⟩
      · cases hset
      · cases hset
  | moved c s e hhalt hc hpending he' =>
      have hold := h c s hc
      exact conns_update h
        ((hsound.effect hhalt hc hpending he').2.earned ⟨hold.auth, hold.sync⟩)

/-! ### Runs -/

/-- **The network refines the server.** Whatever happens to the acceptor, to the sockets and to
the timers, in whatever order: some events of the server lead to the same world and, for each
connection that was not shut down, to the same session. The server stops only where the network
does, and in the same way. The requests that these events hold for a connection are the frames at
the front of what its client sends, and what the client has been sent is the front of the framed
replies that the server gives to them. -/
theorem network_refines_server (env : Env) (disk : Disk) (es : List Network.Event)
    (n : Network)
    (hn : n = run (Network.step env) (Network.start (World.ofDisk disk)) es) :
    ∃ fs : List Event,
      Abstracts n (run (Server.step env) (Server.start (World.ofDisk disk)) fs) ∧
      ∀ c s, n.conns c = some s → ∃ stream, Accepted env disk es c stream ∧
        requestBytes (exchangesOf env (c + 1) (Server.start (World.ofDisk disk)) fs) <+: stream ∧
        s.sent <+: replyBytes (exchangesOf env (c + 1) (Server.start (World.ofDisk disk)) fs) := by
  obtain ⟨fs, hfollows⟩ := (network_refinement env _).run (follows_start env disk) es
  rw [List.nil_append] at hfollows
  subst hn
  refine ⟨fs, hfollows.abstracts, fun c s hc => ?_⟩
  obtain ⟨w, isAuth, isSynced, ip, stream, cs, haccepted, hs⟩ :=
    network_connection env disk es c s hc
  have hwire := wire_run env w isAuth isSynced ip stream cs
  rw [← hs] at hwire
  refine ⟨stream, haccepted, ?_⟩
  rw [hfollows.exchanges, hc]
  exact ⟨hwire.received, hwire.sent⟩

/-- A network of one connection, on which `bobby` has logged in and sent the first chunk of `/a`. -/
def bobbyUploads : List Network.Event :=
  .accept (some (ascii "127.0.0.1")) false false
    (frame bobbyAuth ++ (frame (bareMessage .sync) ++
      frame (chunk .create (ascii "/a") (ascii "00") (ascii "hi") false))) ::
    List.replicate 11 (.connection 0 (.succeed 0 fun _ => true))

/-- The network after these events. -/
def bobbyUploading : Network :=
  run (Network.step (bobbyAndBobEnv [])) (Network.start bobbyWorld) bobbyUploads

/-- `bobby`'s network is a server, for some events. -/
theorem network_refines_server_bobby :
    ∃ fs : List Event,
      Abstracts bobbyUploading
        (run (Server.step (bobbyAndBobEnv [])) (Server.start bobbyWorld) fs) ∧
      ∀ c s, bobbyUploading.conns c = some s → ∃ stream,
        Accepted (bobbyAndBobEnv []) bobbyWorld.disk bobbyUploads c stream ∧
        requestBytes (exchangesOf (bobbyAndBobEnv []) (c + 1) (Server.start bobbyWorld) fs) <+:
          stream ∧
        s.sent <+:
          replyBytes (exchangesOf (bobbyAndBobEnv []) (c + 1) (Server.start bobbyWorld) fs) :=
  network_refines_server (bobbyAndBobEnv []) _ bobbyUploads bobbyUploading rfl

/-- In every state of a network, a stream is open only for the user of a connection that was not
shut down and has both flags. So no stream outlives the connections of its user. Where new
connections have clear flags, a SYNC was answered OK on this connection, and before it an AUTH. -/
theorem network_streams_owned (env : Env) (disk : Disk) (es : List Network.Event) (n : Network)
    (hn : n = run (Network.step env) (Network.start (World.ofDisk disk)) es) (id : Bytes)
    (hid : n.world.streams id ≠ none) :
    ∃ c s, n.conns c = some s ∧ Action.shutdown ∉ s.log ∧ s.user_.id = id ∧
      s.user_.isAuth = true ∧ s.user_.isSynced = true ∧
      ((∀ e ∈ es, FlagsDown e) → PassedSync env (exchangesIn s.log)) := by
  have hstart : StreamsOwned (Server.start (World.ofDisk disk)) := fun _ hne => absurd rfl hne
  obtain ⟨fs, hfollows, howned⟩ := (network_refinement env _).carries (follows_start env disk)
    hstart (fun _ _ => streamsOwned_step) es
  have habstracts := hfollows.abstracts
  rw [← hn] at habstracts
  generalize run (Server.step env) (Server.start (World.ofDisk disk)) fs = t at habstracts howned
  rw [← habstracts.world] at hid
  obtain ⟨k, u, hk, howner⟩ := howned id hid
  -- The session is that of a connection, since number 0 has none.
  cases k with
  | zero =>
      rw [habstracts.spare] at hk
      cases hk
  | succ c =>
      rw [habstracts.sessions] at hk
      obtain ⟨s, hc, hsession⟩ := Option.bind_eq_some_iff.mp hk
      rw [sessionOf] at hsession
      split at hsession
      · rename_i hopen
        cases hsession
        obtain ⟨hid, hauth, hsynced⟩ := howner
        refine ⟨c, s, hc, hopen, hid, hauth, hsynced, fun hclear => ?_⟩
        have hearned := (invariant
          (I := fun n => Sound env n ∧ ∀ c s, n.conns c = some s → Earned env s)
          ⟨sound_start disk, by simp [Network.start]⟩
          (fun _ _ h he => ⟨sound_step h.1, earned_step h.1 h.2 he⟩)
          (along_of_mem hclear _)).1.2
        rw [← hn] at hearned
        exact (hearned c s hc).sync hsynced
      · cases hsession

/-- `bobby` has a stream, and the connection that it belongs to has passed AUTH and SYNC. -/
theorem network_streams_owned_bobby :
    ∃ c s, bobbyUploading.conns c = some s ∧ Action.shutdown ∉ s.log ∧
      s.user_.id = (bobby []).id ∧ PassedSync (bobbyAndBobEnv []) (exchangesIn s.log) := by
  obtain ⟨c, s, hc, hopen, hid, -, -, hpassed⟩ := network_streams_owned (bobbyAndBobEnv []) _
    bobbyUploads bobbyUploading rfl (bobby []).id (by decide +kernel)
  refine ⟨c, s, hc, hopen, hid, hpassed fun e he => ?_⟩
  rcases List.mem_cons.mp he with rfl | he
  · exact ⟨rfl, rfl⟩
  · rw [(List.mem_replicate.mp he).2]
    trivial

end RemoteBackup.Proofs
