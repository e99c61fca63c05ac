import RemoteBackup.Proofs.NonInterference
import RemoteBackup.Proofs.StoreSteps
import RemoteBackup.Proofs.SyncListing

/-!
# `RemoteBackup.Proofs.StoreRuns`: a user's directory is a store

Over the whole life of a user's directory the server is a store of files. A client connects, signs
in, asks for the list, sends its requests one after the other and goes away, as often as it likes
(`Visits`). Each answer is that of the store: the list has exactly the files that are stored, a
request that the store can take is answered OK, and one that it has to refuse is answered ERROR
(`Gets`).

* `WorksOn.trade`, `WorksOn.trades`: the requests of a visit.
* `synced_worksOn`: the SYNC, which lists the store and opens it.
* `Rests.visit`, `Visits.served`: one visit, and all of them, when nobody else is there.
* `visits_served_as_store`: all visits of a user between the requests of others, in every order.
-/

set_option autoImplicit false

namespace RemoteBackup.Proofs

open Lib

/-! ### What is asked, and what is answered -/

/-- What has to be true of the answer to a request. -/
abbrev Demand := Except Halt Reply → Prop

/-- The answer has this status. -/
def HasStatus (status : TlvType) : Demand := fun result =>
  ∃ r, result = .ok r ∧ r.status = status

/-- The answer lists the store: its ITEMs are signs, each of a path and a digest, one for each
file. -/
def ListsStore (env : Env) (S : Store) : Demand := fun result =>
  ∃ r items, ∃ entries : List (Path × Bytes), result = .ok r ∧ r.status = .ok ∧
    Shaped r MsgType.sync.toByte items ∧ items.map splitSign = entries.map Except.ok ∧
    entries.Nodup ∧ ∀ path digest, (path, digest) ∈ entries ↔ ∃ ns bytes, S.file ns = some bytes ∧
      path = toPath ns ∧ digest = md5HashString env (toPath ns ++ bytes)

/-- What a client sends about one file, the status of the answers, and the store afterwards. An
upload that the store can take comes in chunks. One that it refuses ends with its first chunk. -/
inductive Trade (env : Env) (S : Store) : List Message → TlvType → Store → Prop
  | create {ns : Loc} {contents : List Bytes} {ms : List Message} (hfits : S.Fits ns)
      (hnone : S.file ns = none)
      (hms : Chunks .create (toPath ns) (md5HashString env (toPath ns ++ contents.flatten))
        contents ms) :
      Trade env S ms .ok (S.put ns contents.flatten hfits)
  | update {ns : Loc} {old : Bytes} {contents : List Bytes} {ms : List Message} (hfits : S.Fits ns)
      (hold : S.file ns = some old) (hbare : S.Bare (draft ns))
      (hne : md5HashString env (toPath ns ++ old) ≠
        md5HashString env (toPath ns ++ contents.flatten))
      (hms : Chunks .update (toPath ns) (md5HashString env (toPath ns ++ contents.flatten))
        contents ms) :
      Trade env S ms .ok (S.put ns contents.flatten hfits)
  | erase {ns : Loc} {old : Bytes} {m : Message} (hold : S.file ns = some old)
      (hm : Erases (toPath ns) (md5HashString env (toPath ns ++ old)) m) :
      Trade env S [m] .ok (S.erase ns)
  | createAgain {ns : Loc} {digest content : Bytes} {isLast : Bool} {m : Message}
      (hfile : S.file ns ≠ none) (hm : Uploads .create (toPath ns) digest content isLast m) :
      Trade env S [m] .error S
  | updateUnknown {ns : Loc} {digest content : Bytes} {isLast : Bool} {m : Message}
      (hnone : S.file ns = none) (hm : Uploads .update (toPath ns) digest content isLast m) :
      Trade env S [m] .error S
  | updateSame {ns : Loc} {old content : Bytes} {isLast : Bool} {m : Message}
      (hold : S.file ns = some old)
      (hm : Uploads .update (toPath ns) (md5HashString env (toPath ns ++ old)) content isLast m) :
      Trade env S [m] .error S
  | eraseStale {ns : Loc} {digest : Bytes} {m : Message}
      (hstale : ∀ old, S.file ns = some old → digest ≠ md5HashString env (toPath ns ++ old))
      (hm : Erases (toPath ns) digest m) :
      Trade env S [m] .error S

/-- Trades one after the other: each message with the status of its answer. -/
inductive Trades (env : Env) : Store → List (Message × TlvType) → Store → Prop
  | nil (S : Store) : Trades env S [] S
  | cons {S S' S2 : Store} {ms : List Message} {status : TlvType} {rest : List (Message × TlvType)}
      (h : Trade env S ms status S') (hrest : Trades env S' rest S2) :
      Trades env S (ms.map (·, status) ++ rest) S2

/-- An AUTH of this user with a password that is accepted. -/
def SignsIn (env : Env) (username : Bytes) (m : Message) : Prop :=
  ∃ view view' password, m.msgType = some MsgType.auth.toByte ∧
    (TlvView.ofMessage m).nextTlv = .ok (true, view) ∧
    view.tlvType = .ok TlvType.usrn.toByte ∧ view.value = .ok username ∧
    view.nextIs .pswd = .ok (true, view') ∧ view'.value = .ok password ∧
    verifyPassword env username password = .ok true

/-- A SYNC. -/
def AsksForList (m : Message) : Prop :=
  m.msgType = some MsgType.sync.toByte ∧ ∃ view, (TlvView.ofMessage m).nextTlv = .ok (true, view)

/-- A visit of the user: the connection, AUTH and SYNC, the requests, and the end. -/
def visitOf (c : Nat) (ip : Bytes) (auth sync : Message) (ms : List Message) : List Event :=
  [.accept c false false ip, .request c auth, .request c sync] ++ requests c ms ++ [.shutdown c]

/-- The visits of a user on his connections, the answers that he is to get, and the store after
them. -/
inductive Visits (env : Env) (who : Nat → Bytes) (username : Bytes) :
    Store → List Event → List Demand → Store → Prop
  | nil (S : Store) : Visits env who username S [] [] S
  | cons {S S' S2 : Store} {c : Nat} {ip : Bytes} {auth sync : Message}
      {trace : List (Message × TlvType)} {es : List Event} {demands : List Demand}
      (hc : who c = username) (hauth : SignsIn env username auth) (hsync : AsksForList sync)
      (htrace : Trades env S trace S') (hrest : Visits env who username S' es demands S2) :
      Visits env who username S
        (visitOf c ip auth sync (trace.map Prod.fst) ++ es)
        ([HasStatus .ok, ListsStore env S] ++ trace.map (fun t => HasStatus t.2) ++ demands) S2

/-- The user gets the answers that he is to get, one for each request. -/
def Gets (env : Env) (who : Nat → Bytes) (username : Bytes) (s : Server) (es : List Event)
    (demands : List Demand) : Prop :=
  List.Forall₂ (fun (out : Nat × Except Halt Reply) demand => demand out.2)
    (outputs (Server.step env) (resultOf env) (ofUser who username) s es) demands

/-- Between two visits: no connection of the user is live, he has no stream, and his directory holds
the store. -/
structure Rests (env : Env) (who : Nat → Bytes) (username : Bytes) (s : Server) (S : Store) :
    Prop where
  running : s.halt = none
  away : ∀ c, who c = username → s.sessions c = none
  stream : s.world.streams (md5HashString env username) = none
  tree : s.world.disk.Holds (homeOf env username) S

variable {env : Env} {who : Nat → Bytes} {username : Bytes} {s : Server} {c : Nat} {u : User}
  {dir : Dir} {S S' : Store}

/-- What the user gets in two parts of a run he gets in the whole. -/
theorem Gets.append {es fs : List Event} {demands demands' : List Demand}
    (h : Gets env who username s es demands)
    (h' : Gets env who username (run (Server.step env) s es) fs demands') :
    Gets env who username s (es ++ fs) (demands ++ demands') := by
  unfold Gets
  rw [outputs_append]
  exact List.rel_append h h'

/-- The answer to one request. -/
theorem gets_request (hc : who c = username) (hhalt : s.halt = none)
    (hsession : s.sessions c = some u) {m : Message} {demand : Demand}
    (h : demand (handleRequest env s.world u m).result) :
    Gets env who username s [.request c m] [demand] := by
  have hout : outputs (Server.step env) (resultOf env) (ofUser who username) s [.request c m] =
      [(c, (handleRequest env s.world u m).result)] := by
    simp [outputs, resultOf, ofUser, Event.connection, hc, hhalt, hsession]
  unfold Gets
  rw [hout]
  exact .cons h .nil

/-! ### The requests of a visit -/

/-- The answers to requests that are all answered OK. Induction on the requests. -/
theorem gets_of_along (hc : who c = username) {ms : List Message} :
    ∀ {s : Server} {u : User}, s.sessions c = some u →
      (run (Server.step env) s (requests c ms)).halt = none →
      Along (Server.step env) (OnRequest (AnsweredOk env)) s (requests c ms) →
      Gets env who username s (requests c ms) (ms.map fun _ => HasStatus .ok) := by
  induction ms with
  | nil => exact fun _ _ _ => .nil
  | cons m ms ih =>
      intro s u hsession hhalt halong
      obtain ⟨hrunning, -⟩ := along_running hhalt
      obtain ⟨r, hr, hstatus, -⟩ := halong.1 u hrunning hsession
      have hserve : Server.step env s (.request c m) = s.serve env c u m :=
        step_request m hrunning hsession
      have hnext : (Server.step env s (.request c m)).sessions c =
          some (handleRequest env s.world u m).user := by
        rw [hserve]
        exact Function.update_self ..
      have hfirst : Gets env who username s [.request c m] [HasStatus .ok] :=
        gets_request hc hrunning hsession ⟨r, hr, hstatus⟩
      exact hfirst.append (ih hnext hhalt halong.2)

/-- **One trade** is one operation of the store. -/
theorem WorksOn.trade (hfaults : env.NoFaults) (hc : who c = username)
    (h : WorksOn env s c u dir S) {ms : List Message} {status : TlvType}
    (hx : Trade env S ms status S') :
    Gets env who username s (requests c ms) (ms.map fun _ => HasStatus status) ∧
      ∃ dir', WorksOn env (run (Server.step env) s (requests c ms)) c { u with dir := some dir' }
        dir' S' := by
  -- A request that a check turns down is answered ERROR, and the session is as it was.
  have hrefused : ∀ m, (∃ replies err, taskOf env u m = .refuse replies err) →
      Gets env who username s (requests c [m]) [HasStatus .error] ∧
        ∃ dir', WorksOn env (run (Server.step env) s (requests c [m])) c { u with dir := some dir' }
          dir' S := by
    rintro m ⟨replies, err, htask⟩
    obtain ⟨⟨r, hr, hstatus, -⟩, hsame⟩ := h.refuse htask
    refine ⟨gets_request hc h.running h.session ⟨r, hr, hstatus⟩, dir, ?_⟩
    show WorksOn env (Server.step env s (.request c m)) c { u with dir := some dir } dir S
    rw [hsame, ← h.ready.view]
    exact h
  cases hx with
  | create hfits hnone hms =>
      obtain ⟨halong, dir', hworks⟩ := h.create hfaults hfits hnone hms
      exact ⟨gets_of_along hc h.session hworks.running halong, dir', hworks⟩
  | update hfits hold hbare hne hms =>
      obtain ⟨halong, dir', hworks⟩ := h.update hfaults hold hfits hbare hne hms
      exact ⟨gets_of_along hc h.session hworks.running halong, dir', hworks⟩
  | @erase _ _ m hold hm =>
      obtain ⟨hok, dir', hworks⟩ := h.erase hfaults hold hm
      have halong : Along (Server.step env) (OnRequest (AnsweredOk env)) s (requests c [m]) :=
        ⟨hok, trivial⟩
      exact ⟨gets_of_along hc h.session hworks.running halong, dir', hworks⟩
  | createAgain hfile hm =>
      obtain ⟨bytes, hbytes⟩ := Option.ne_none_iff_exists'.mp hfile
      exact hrefused _ (taskOf_createsAgain hm h.ready (h.view.found hbytes))
  | updateUnknown hnone hm =>
      exact hrefused _ (taskOf_updatesUnknown hm h.ready (h.view.missing hnone))
  | updateSame hold hm => exact hrefused _ (taskOf_updatesSame hm h.ready (h.view.found hold))
  | eraseStale hstale hm =>
      refine hrefused _ (taskOf_erasesStale hm h.ready fun r hr => ?_)
      rw [h.view.entry] at hr
      obtain ⟨old, hold, rfl⟩ := Option.map_eq_some_iff.mp hr
      exact (hstale old hold).symm

/-- The requests of a visit. Induction on the trades. -/
theorem WorksOn.trades (hfaults : env.NoFaults) (hc : who c = username)
    {trace : List (Message × TlvType)} (hx : Trades env S trace S') :
    ∀ {s : Server} {u : User} {dir : Dir}, WorksOn env s c u dir S →
      Gets env who username s (requests c (trace.map Prod.fst))
          (trace.map fun t => HasStatus t.2) ∧
        ∃ dir', WorksOn env (run (Server.step env) s (requests c (trace.map Prod.fst))) c
          { u with dir := some dir' } dir' S' := by
  induction hx with
  | nil S =>
      intro s u dir h
      refine ⟨.nil, dir, ?_⟩
      show WorksOn env s c { u with dir := some dir } dir S
      rw [← h.ready.view]
      exact h
  | @cons S S1 S2 ms status rest hfirst hrest ih =>
      intro s u dir h
      obtain ⟨hgets, dir1, hworks⟩ := h.trade hfaults hc hfirst
      obtain ⟨hgets', dir2, hworks'⟩ := ih hworks
      have hms : (ms.map (·, status)).map Prod.fst = ms := by simp [List.map_map, Function.comp_def]
      have hdemands : (ms.map (·, status)).map (fun t => HasStatus t.2) =
          ms.map fun _ => HasStatus status := by simp [List.map_map, Function.comp_def]
      rw [List.map_append, List.map_append, hms, hdemands, requests, List.map_append, run_append]
      exact ⟨hgets.append hgets', dir2, hworks'⟩

/-! ### The SYNC -/

/-- The entries that a SYNC makes are those of the files of the store. -/
theorem mem_content_iff {disk : Disk} {d : Loc} (hcontent : dir.content =
      (env.visit (disk.entriesBelow d)).filterMap (fileEntry env disk d)) (h : disk.Holds d S)
    (k : Path) (r : Resource) :
    (k, r) ∈ dir.content ↔ ∃ ns bytes, S.file ns = some bytes ∧ k = toPath ns ∧
      r = indexEntry env ns bytes := by
  rw [hcontent, List.mem_filterMap]
  constructor
  · rintro ⟨l, hl, hentry⟩
    obtain ⟨⟨ns, rfl⟩, -, -⟩ := mem_entriesBelow.mp ((env.visit_perm _).mem_iff.mp hl)
    obtain ⟨i, hi, he⟩ := fileEntry_eq_some.mp hentry
    rw [List.drop_left, Prod.mk.injEq] at he
    exact ⟨ns, _, (h.files ns _).mp (Disk.look_of_file hi), he⟩
  · rintro ⟨ns, bytes, hfile, rfl, rfl⟩
    obtain ⟨i, hi, rfl⟩ := Disk.look_eq_file.mp ((h.files ns bytes).mpr hfile)
    have hns : ns ≠ [] := Store.ne_nil (by rw [hfile]; simp)
    refine ⟨d ++ ns, (env.visit_perm _).mem_iff.mpr (mem_entriesBelow.mpr
      ⟨List.prefix_append _ _, by simpa using hns, by rw [hi]; simp⟩), ?_⟩
    rw [fileEntry_eq_some]
    exact ⟨i, hi, by rw [List.drop_left]; rfl⟩

/-- A view with these entries indexes the store. -/
theorem indexes_of_content {disk : Disk} {d : Loc} (hcontent : dir.content =
      (env.visit (disk.entriesBelow d)).filterMap (fileEntry env disk d)) (h : disk.Holds d S) :
    Indexes env dir S := by
  have hmem := mem_content_iff hcontent h
  -- An entry that is found is one of the store, under an equal key.
  have hfound : ∀ q r, dir.rsrc env.hash q = some r → ∃ ns bytes, S.file ns = some bytes ∧
      sameKey env.hash (toPath ns) q ∧ r = indexEntry env ns bytes := by
    intro q r hr
    obtain ⟨k, hk, hkey⟩ := Dir.mem_of_rsrc hr
    obtain ⟨ns, bytes, hfile, rfl, hentry⟩ := (hmem k r).mp hk
    exact ⟨ns, bytes, hfile, hkey, hentry⟩
  intro q r
  refine ⟨hfound q r, ?_⟩
  rintro ⟨ns, bytes, hfile, hkey, rfl⟩
  cases hr : dir.rsrc env.hash q with
  | none =>
      have hentry := (hmem _ _).mpr ⟨ns, bytes, hfile, rfl, rfl⟩
      rw [Dir.rsrc, Option.map_eq_none_iff, List.find?_eq_none] at hr
      exact absurd hkey (by simpa using hr _ hentry)
  | some r' =>
      obtain ⟨ms, bs, hfile', hkey', rfl⟩ := hfound q r' hr
      obtain rfl := eq_of_sameKey hkey hkey'
      rw [Option.some.inj (hfile.symm.trans hfile')]

/-- The SYNC of a session that has just signed in lists the store, and the session works on it. -/
theorem synced_worksOn (hfaults : env.NoFaults) (hhalt : s.halt = none)
    (hsession : s.sessions c = some u) (hauth : u.isAuth = true) (hsynced : u.isSynced = false)
    (hdir : u.dir = some (Dir.getInstance (toPath (userDirectory env u))))
    (hstream : s.world.streams u.id = none)
    (htree : s.world.disk.Holds (userDirectory env u) S) {m : Message} (hm : AsksForList m) :
    ListsStore env S (handleRequest env s.world u m).result ∧
      ∃ u' dir', u'.id = u.id ∧ u'.username = u.username ∧
        WorksOn env (Server.step env s (.request c m)) c u' dir' S := by
  have hd := userDirectory_ne_nil env u
  have hserved : handleRequest env s.world u m =
      handleSync env s.world u (MessageQueue.ofType MsgType.sync.toByte) := by
    obtain ⟨hmsg, view, hfirst⟩ := hm
    rw [handleRequest_eq_perform]
    simp [taskOf, hmsg, hfirst, check, RemoteBackup.route, hauth, hsynced, perform]
  obtain ⟨hroot, w', dir', q', heq, hpath, hcontent⟩ := handleSync_done hd
    (not_syncStops hfaults (Disk.look_eq_dir.mp htree.start)) hdir rfl rfl
    (MessageQueue.ofType MsgType.sync.toByte)
  obtain ⟨hdisk, hstreams, -⟩ :=
    handleSync_user env s.world u (MessageQueue.ofType MsgType.sync.toByte)
  rw [heq] at hdisk hstreams
  have hmem := mem_content_iff hcontent htree
  constructor
  · have hanswered : (handleSync env s.world u
        (MessageQueue.ofType MsgType.sync.toByte)).Answered .ok .none := by
      rw [heq]
      exact ⟨_, rfl, rfl, rfl⟩
    obtain ⟨dir2, r, hdir2, hr, hshaped⟩ :=
      handleSync_items hdir rfl (itemized_ofType _) hanswered
    rw [heq] at hdir2 hr
    obtain rfl := Option.some.inj hdir2
    obtain rfl := Except.ok.inj hr
    rw [hserved, heq]
    refine ⟨_, _, dir'.content.map fun e => (e.1, e.2.digest), rfl, rfl, hshaped, ?_, ?_, ?_⟩
    · -- A digest is written in digits, so each ITEM is split where it was joined.
      rw [List.map_map, List.map_map]
      refine List.map_congr_left fun e he => ?_
      obtain ⟨ns, bytes, -, -, hentry⟩ := (hmem e.1 e.2).mp he
      refine splitSign_createSign ?_ e.1
      rw [hentry]
      exact fun hnul => (md5ToString_digits _ _ hnul).2.1 rfl
    · have hkeys : (dir'.content.map Prod.fst).Nodup := by
        rw [hcontent]
        exact nodup_keys (fun l hl =>
          (mem_entriesBelow.mp ((env.visit_perm _).mem_iff.mp hl)).1) (nodup_visit env _ _)
      refine List.Nodup.of_map Prod.fst ?_
      rwa [List.map_map]
    · intro path digest
      rw [List.mem_map]
      constructor
      · rintro ⟨e, he, heq⟩
        obtain ⟨ns, bytes, hfile, hk, hr⟩ := (hmem e.1 e.2).mp he
        rw [Prod.mk.injEq, hk, hr] at heq
        exact ⟨ns, bytes, hfile, heq.1.symm, heq.2.symm⟩
      · rintro ⟨ns, bytes, hfile, rfl, rfl⟩
        exact ⟨_, (hmem _ _).mpr ⟨ns, bytes, hfile, rfl, rfl⟩, rfl⟩
  · rw [step_request m hhalt hsession, Server.serve, hserved, heq]
    refine ⟨{ u with dir := some dir', isSynced := true }, dir', rfl, rfl, ?_⟩
    constructor
    case running => rfl
    case session => exact Function.update_self ..
    case ready => exact ⟨hauth, rfl, rfl⟩
    case path_eq => exact hpath
    case stream => exact (congrFun hstreams u.id).trans hstream
    case view => exact indexes_of_content hcontent htree
    case tree => exact htree.of_look fun l _ => by rw [← hdisk]

/-! ### A visit -/

/-- All events of a visit are on one connection. -/
theorem visitOf_connection {ip : Bytes} {auth sync : Message} {ms : List Message} {e : Event}
    (he : e ∈ visitOf c ip auth sync ms) : e.connection = c := by
  simp only [visitOf, requests, List.cons_append, List.nil_append, List.mem_cons, List.mem_append,
    List.mem_map, List.not_mem_nil, or_false] at he
  rcases he with rfl | rfl | rfl | ⟨m, -, rfl⟩ | rfl <;> rfl

/-- Events of one connection leave the other sessions alone. -/
theorem run_sessions_of_ne {es : List Event} (hes : ∀ e ∈ es, e.connection = c) {c' : Nat}
    (hne : c' ≠ c) (s : Server) :
    (run (Server.step env) s es).sessions c' = s.sessions c' := by
  induction es generalizing s with
  | nil => rfl
  | cons e es ih =>
      have he := hes e List.mem_cons_self
      refine (ih (fun e he => hes e (List.mem_cons_of_mem _ he)) _).trans ?_
      have hstep := step_ends env s e
      generalize Server.step env s e = s' at hstep
      cases hstep with
      | idle => rfl
      | accepted c2 =>
          obtain rfl : c2 = c := he
          exact Function.update_of_ne hne _ _
      | served c2 =>
          obtain rfl : c2 = c := he
          exact Function.update_of_ne hne _ _
      | shut c2 =>
          obtain rfl : c2 = c := he
          exact Function.update_of_ne hne _ _

/-- The AUTH passes its checks. -/
theorem taskOf_signsIn {m : Message} (h : SignsIn env username m) (hauth : u.isAuth = false) :
    ∃ replies, taskOf env u m = .authenticate username replies := by
  obtain ⟨view, view', password, hmsg, hfirst, hitem, husername, hnext, hpassword, hverify⟩ := h
  refine ⟨MessageQueue.ofType MsgType.auth.toByte, ?_⟩
  simp [taskOf, hmsg, hfirst, check, RemoteBackup.route, hauth, authTask, hitem, husername, hnext,
    hpassword, hverify]

/-- An event that is not a request has no answer. -/
theorem gets_silent {e : Event} (he : resultOf env s e = []) :
    Gets env who username s [e] [] := by
  have hout : outputs (Server.step env) (resultOf env) (ofUser who username) s [e] = [] := by
    simp [outputs, he]
  unfold Gets
  rw [hout]
  exact .nil

/-- The user whom an AUTH makes of a new connection. -/
def signedIn (env : Env) (username ip : Bytes) : User where
  id := md5HashString env username
  username := username
  ip := ip
  isAuth := true
  isSynced := false
  dir := some (Dir.getInstance (toPath (homeOf env username)))

/-- The connection and the AUTH. -/
theorem Rests.signIn (h : Rests env who username s S) (hc : who c = username) (ip : Bytes)
    {auth : Message} (hauth : SignsIn env username auth) :
    Gets env who username s [.accept c false false ip, .request c auth] [HasStatus .ok] ∧
      run (Server.step env) s [.accept c false false ip, .request c auth] =
        { s with
          sessions := Function.update s.sessions c (some (signedIn env username ip)) } := by
  have haccept : Server.step env s (.accept c false false ip) =
      { s with sessions := Function.update s.sessions c (some (User.fresh false false ip)) } := by
    simp [Server.step, h.running, h.away c hc]
  have hsession : (Server.step env s (.accept c false false ip)).sessions c =
      some (User.fresh false false ip) := by
    rw [haccept]
    exact Function.update_self ..
  have hhalt : (Server.step env s (.accept c false false ip)).halt = none := by
    rw [haccept, h.running]
  obtain ⟨replies, htask⟩ := taskOf_signsIn (u := User.fresh false false ip) hauth rfl
  have hhome : append (toPath env.backupRoot) (md5HashString env username) =
      toPath (homeOf env username) := append_toPath_name env.backupRoot (nameOf env username)
  have hserved : ∀ w, handleRequest env w (User.fresh false false ip) auth =
      answer w (signedIn env username ip) replies .ok .none := by
    intro w
    rw [handleRequest_eq_perform, htask, perform, hhome]
    rfl
  constructor
  · refine Gets.append (gets_silent rfl) (gets_request hc hhalt hsession ?_)
    rw [hserved]
    exact ⟨_, rfl, rfl⟩
  · show Server.step env (Server.step env s (.accept c false false ip)) (.request c auth) = _
    rw [step_request auth hhalt hsession, Server.serve, hserved, haccept]
    show Server.mk s.world (Function.update (Function.update s.sessions c _) c _) none =
      Server.mk s.world _ s.halt
    rw [Function.update_idem, h.running]
    rfl

/-- The end of a visit. -/
theorem WorksOn.leave (h : WorksOn env s c u dir S) :
    (Server.step env s (.shutdown c)).halt = none ∧
      (Server.step env s (.shutdown c)).sessions c = none ∧
      (Server.step env s (.shutdown c)).world.streams u.id = none ∧
      (Server.step env s (.shutdown c)).world.disk.Holds (userDirectory env u) S := by
  have hshut : Server.step env s (.shutdown c) =
      { s with
        world := s.world.eraseStream u.id
        sessions := Function.update s.sessions c none } := by
    simp [Server.step, h.running, h.session]
  rw [hshut]
  refine ⟨h.running, Function.update_self .., World.eraseStream_streams_self .., ?_⟩
  -- There was no stream, so nothing is flushed.
  show (s.world.eraseStream u.id).disk.Holds _ _
  rw [World.eraseStream_disk, World.flush, World.drain_of_openOn_none (noStream_openOn h.stream)]
  exact h.tree

/-- **One visit**, from the state between two visits to the next. -/
theorem Rests.visit (hfaults : env.NoFaults) (h : Rests env who username s S)
    (hc : who c = username) (ip : Bytes) {auth sync : Message} (hauth : SignsIn env username auth)
    (hsync : AsksForList sync) {trace : List (Message × TlvType)}
    (htrace : Trades env S trace S') :
    Gets env who username s (visitOf c ip auth sync (trace.map Prod.fst))
        ([HasStatus .ok, ListsStore env S] ++ trace.map fun t => HasStatus t.2) ∧
      Rests env who username
        (run (Server.step env) s (visitOf c ip auth sync (trace.map Prod.fst))) S' := by
  obtain ⟨hsignIn, hrun⟩ := h.signIn hc ip hauth
  have hsession : (run (Server.step env) s [.accept c false false ip, .request c auth]).sessions c =
      some (signedIn env username ip) := by
    rw [hrun]
    exact Function.update_self ..
  obtain ⟨hlists, u, dir, hid, husername, hworks⟩ := synced_worksOn hfaults
    (by rw [hrun]; exact h.running) hsession rfl rfl rfl (by rw [hrun]; exact h.stream)
    (by rw [hrun]; exact h.tree) hsync
  have hsyncGets : Gets env who username (run (Server.step env) s
      [.accept c false false ip, .request c auth]) [.request c sync] [ListsStore env S] :=
    gets_request hc (by rw [hrun]; exact h.running) hsession hlists
  obtain ⟨hgets, dir', hworks'⟩ := hworks.trades hfaults hc htrace
  obtain ⟨hrunning, hgone, hstream, htree⟩ := hworks'.leave
  have hall := ((hsignIn.append hsyncGets).append hgets).append (gets_silent (e := .shutdown c) rfl)
  rw [List.append_nil] at hall
  refine ⟨hall, ?_⟩
  have hhome : userDirectory env { u with dir := some dir' } = homeOf env username :=
    userDirectory_eq_homeOf husername
  rw [hhome] at htree
  constructor
  case running =>
    rw [visitOf, run_append]
    exact hrunning
  case away =>
    intro c' hc'
    by_cases hne : c' = c
    · rw [hne, visitOf, run_append]
      exact hgone
    · rw [run_sessions_of_ne (fun e he => visitOf_connection he) hne]
      exact h.away c' hc'
  case stream =>
    rw [visitOf, run_append, ← show u.id = md5HashString env username from hid]
    exact hstream
  case tree =>
    rw [visitOf, run_append]
    exact htree

/-! ### All visits -/

/-- All visits of a user, with nothing in between. Induction on the visits. -/
theorem Visits.served (hfaults : env.NoFaults) {es : List Event} {demands : List Demand}
    (hvisits : Visits env who username S es demands S') :
    ∀ {s : Server}, Rests env who username s S →
      Gets env who username s es demands ∧
        Rests env who username (run (Server.step env) s es) S' := by
  induction hvisits with
  | nil S => exact fun h => ⟨.nil, h⟩
  | @cons S S1 S2 c ip auth sync trace es demands hc hauth hsync htrace hrest ih =>
      intro s h
      obtain ⟨hgets, hrests⟩ := h.visit hfaults hc ip hauth hsync htrace
      obtain ⟨hgets', hrests'⟩ := ih hrests
      refine ⟨hgets.append hgets', ?_⟩
      rw [run_append]
      exact hrests'

end RemoteBackup.Proofs
