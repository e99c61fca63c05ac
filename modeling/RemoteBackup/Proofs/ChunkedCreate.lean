import RemoteBackup.Proofs.Acknowledged
import RemoteBackup.Proofs.CreateChunk
import RemoteBackup.Proofs.FailedUpload

/-!
# `RemoteBackup.Proofs.ChunkedCreate`: a CREATE in many chunks

A client sends a new file as a list of CREATE requests, and `verify_end` is true of the last one
only. `Receiving` is what holds between two of them: the session's stream writes to the file, which
holds what came so far.

* `Receiving.served`, `Receiving.step`: one request, from `createTransfer_takes`.
* `Receiving.chunks`: all of them, by induction on the list.
* `chunked_create_reassembles`: a path that the session can begin to create.
-/

set_option autoImplicit false

namespace RemoteBackup.Proofs

open Lib

/-- The request is answered OK. -/
def AnsweredOk (env : Env) (w : World) (u : User) (m : Message) : Prop :=
  (handleRequest env w u m).Answered .ok .none

/-- What requests on one connection have done to `s`: the view is as before but for the entry of
`path`, the file at `l` holds `bytes`, and the files that stand at none of `ls` are as before. -/
structure Uploaded (env : Env) (s : Server) (c : Nat) (u : User) (dir : Dir) (path : Path) (l : Loc)
    (ls : List Loc) (r : Resource) (bytes : Bytes) (s' : Server) (dir' : Dir) : Prop where
  running : s'.halt = none
  session : s'.sessions c = some { u with dir := some dir' }
  root : dir'.path = dir.path
  entries : ∀ q, dir'.rsrc env.hash q =
    if sameKey env.hash path q then some r else dir.rsrc env.hash q
  file : ∃ i, s'.world.disk.node l = some (.file i) ∧ s'.world.disk.content i = bytes
  others : Disk.SameBut ls s.world.disk s'.world.disk

/-- What is done on top of what was done before. -/
theorem Uploaded.trans {env : Env} {s s1 s2 : Server} {c : Nat} {u : User} {dir dir1 dir2 : Dir}
    {path : Path} {l : Loc} {ls : List Loc} {r1 r2 : Resource} {bytes1 bytes2 : Bytes}
    (h1 : Uploaded env s c u dir path l ls r1 bytes1 s1 dir1)
    (h2 : Uploaded env s1 c { u with dir := some dir1 } dir1 path l ls r2 bytes2 s2 dir2) :
    Uploaded env s c u dir path l ls r2 bytes2 s2 dir2 where
  running := h2.running
  session := h2.session
  root := h2.root.trans h1.root
  entries q := by
    rw [h2.entries]
    split
    · rfl
    · rename_i hq
      rw [h1.entries, if_neg hq]
  file := h2.file
  others := h1.others.trans h2.others

/-- A session that takes chunks of `path`. Those that have come made up `bytes`. -/
structure Receiving (env : Env) (s : Server) (c : Nat) (u : User) (dir : Dir) (path : Path)
    (l : Loc) (i : Nat) (bytes : Bytes) : Prop where
  running : s.halt = none
  session : s.sessions c = some u
  ready : Transferring u dir
  placed : append dir.path path = toPath l
  ne_nil : l ≠ []
  way : s.world.disk.Passable l.dropLast
  takes : Takes s.world u.id l i bytes
  entry : dir.rsrc env.hash path =
    if s.world.streams u.id = none then none else some ⟨false, tempDigest⟩

/-- What the chunks of an upload come to, when the file held `bytes` before the first of them. -/
structure Reassembled (env : Env) (s : Server) (c : Nat) (u : User) (dir : Dir)
    (path digest : Bytes) (l : Loc) (bytes : Bytes) (contents : List Bytes) (ms : List Message) :
    Prop where
  answered : Along (Server.step env) (OnRequest (AnsweredOk env)) s (requests c ms)
  partly : ∀ j, 0 < j → j < ms.length → ∃ dir',
    Uploaded env s c u dir path l [l] ⟨false, tempDigest⟩ (bytes ++ (contents.take j).flatten)
      (run (Server.step env) s (requests c (ms.take j))) dir'
  stored : ∃ dir', Uploaded env s c u dir path l [l] ⟨true, digest⟩ (bytes ++ contents.flatten)
    (run (Server.step env) s (requests c ms)) dir'
  stream : (run (Server.step env) s (requests c ms)).world.streams u.id = none

variable {env : Env} {s : Server} {c : Nat} {u : User} {dir : Dir} {path digest : Bytes} {l : Loc}
  {i : Nat} {bytes : Bytes}

/-- One request that is answered OK, by what it leaves on the disk and in the view. -/
theorem uploaded_of_served (hrunning : s.halt = none) (hsession : s.sessions c = some u)
    {m : Message} {w' : World} {dir' : Dir} {replies : MessageQueue} {ls : List Loc} {r : Resource}
    (hserved : handleRequest env s.world u m =
      answer w' { u with dir := some dir' } replies .ok .none)
    (hroot : dir'.path = dir.path)
    (hentries : ∀ q, dir'.rsrc env.hash q =
      if sameKey env.hash path q then some r else dir.rsrc env.hash q)
    (hfile : ∃ i, w'.disk.node l = some (.file i) ∧ w'.disk.content i = bytes)
    (hothers : Disk.SameBut ls s.world.disk w'.disk) :
    OnRequest (AnsweredOk env) s (.request c m) ∧
      Uploaded env s c u dir path l ls r bytes (Server.step env s (.request c m)) dir' := by
  constructor
  · refine onRequest_of_session hsession ?_
    rw [AnsweredOk, hserved]
    exact ⟨_, rfl, rfl, rfl⟩
  · rw [step_request m hrunning hsession, Server.serve, hserved]
    exact ⟨rfl, Function.update_self .., hroot, hentries, hfile, hothers⟩

/-- The view after a chunk. -/
theorem Receiving.entries (h : Receiving env s c u dir path l i bytes) (isLast : Bool) (q : Path) :
    (noteChunk env dir path (chunkResource (s.world.streams u.id).isNone isLast digest
      tempDigest)).rsrc env.hash q =
        if sameKey env.hash path q then some ⟨isLast, if isLast then digest else tempDigest⟩
        else dir.rsrc env.hash q := by
  refine noteChunk_entries (fun hsome => ?_) isLast q
  rw [h.entry, if_neg (fun hnone => by simp [hnone] at hsome)]

/-- The path has no synced entry, which `handle_create` would turn down. -/
theorem Receiving.unsynced (h : Receiving env s c u dir path l i bytes) :
    ∀ e, dir.rsrc env.hash path = some e → e.synced = false := by
  intro e he
  rw [h.entry] at he
  split at he
  · exact absurd he (by simp)
  · cases he
    rfl

/-- What the handler does with a chunk. -/
theorem Receiving.served (hfaults : env.NoFaults) (h : Receiving env s c u dir path l i bytes)
    {content : Bytes} {isLast : Bool} {m : Message}
    (hm : Uploads .create path digest content isLast m)
    (hdigest : isLast = true → md5HashString env (path ++ (bytes ++ content)) = digest) :
    ∃ w' replies, handleRequest env s.world u m =
        answer w'
          { u with
            dir := some (noteChunk env dir path
              (chunkResource (s.world.streams u.id).isNone isLast digest tempDigest)) }
          replies .ok .none ∧
      s.world.disk.Grown l i w'.disk ∧
      w'.disk.content = Function.update s.world.disk.content i (bytes ++ content) ∧
      w'.streams =
        Function.update s.world.streams u.id (if isLast then none else some ⟨some i, []⟩) := by
  obtain ⟨view, replies, htask, hcontent, hend⟩ := taskOf_creates hm h.ready h.unsynced
  obtain ⟨w', hcreate, hgrown, hbytes, hstreams⟩ :=
    @createTransfer_takes env hfaults _ u dir view replies path _ _ h.placed h.ne_nil h.way _ _
      h.takes _ _ hcontent hend hdigest
  exact ⟨w', replies, by rw [handleRequest_eq_perform, htask, perform, hcreate], hgrown, hbytes,
    hstreams⟩

/-- One request. -/
theorem Receiving.step (hfaults : env.NoFaults) (h : Receiving env s c u dir path l i bytes)
    {content : Bytes} {isLast : Bool} {m : Message}
    (hm : Uploads .create path digest content isLast m)
    (hdigest : isLast = true → md5HashString env (path ++ (bytes ++ content)) = digest) :
    OnRequest (AnsweredOk env) s (.request c m) ∧ ∃ dir',
      Uploaded env s c u dir path l [l] ⟨isLast, if isLast then digest else tempDigest⟩
        (bytes ++ content) (Server.step env s (.request c m)) dir' ∧
      if isLast then (Server.step env s (.request c m)).world.streams u.id = none
      else Receiving env (Server.step env s (.request c m)) c { u with dir := some dir' } dir' path
        l i (bytes ++ content) := by
  obtain ⟨w', replies, hserved, hgrown, hbytes, hstreams⟩ := h.served hfaults hm hdigest
  have hentries := @Receiving.entries _ _ _ _ _ _ digest _ _ _ h isLast
  generalize hdir' : noteChunk env dir path
    (chunkResource (s.world.streams u.id).isNone isLast digest tempDigest) = dir'
    at hserved hentries
  have hroot : dir'.path = dir.path := by rw [← hdir', noteChunk_path]
  obtain ⟨hok, huploaded⟩ := uploaded_of_served h.running h.session hserved hroot hentries
    ⟨i, hgrown.file, (congrFun hbytes i).trans (Function.update_self ..)⟩
    (hgrown.sameBut h.way (fun k hk => h.takes.place hk) hbytes)
  refine ⟨hok, dir', huploaded, ?_⟩
  rw [step_request m h.running h.session, Server.serve, hserved]
  cases isLast with
  | true => exact (congrFun hstreams u.id).trans (Function.update_self ..)
  | false =>
      -- The stream is flushed, so the file holds all that has come.
      have hopen : w'.streams u.id = some ⟨some i, []⟩ := by
        rw [hstreams, Function.update_self, if_neg (by simp)]
      have hheld : w'.disk.content i = bytes ++ content := by
        rw [hbytes, Function.update_self]
      rw [if_neg (by simp)]
      constructor
      case running => rfl
      case session => exact Function.update_self ..
      case ready => exact ⟨h.ready.auth, h.ready.synced, rfl⟩
      case placed =>
        rw [hroot]
        exact h.placed
      case ne_nil => exact h.ne_nil
      case way => exact hgrown.passable
      case takes =>
        rw [← hheld]
        exact .later hopen hgrown.file
      case entry =>
        show dir'.rsrc env.hash path =
          if w'.streams u.id = none then none else some ⟨false, tempDigest⟩
        rw [hentries path, if_pos (sameKey_refl path), hopen, if_neg (by simp), if_neg (by simp)]

/-- All requests of an upload. Induction on the list: what the first does is `Receiving.step`, and
the others find the state that it leaves. -/
theorem Receiving.chunks (hfaults : env.NoFaults) {contents : List Bytes} {ms : List Message}
    (hms : Chunks .create path digest contents ms) :
    ∀ {s : Server} {u : User} {dir : Dir} {bytes : Bytes},
      Receiving env s c u dir path l i bytes →
      md5HashString env (path ++ (bytes ++ contents.flatten)) = digest →
      Reassembled env s c u dir path digest l bytes contents ms := by
  induction hms with
  | @last content m hm =>
      intro s u dir bytes h hdigest
      rw [List.flatten_singleton] at hdigest
      obtain ⟨hok, dir', hstored, hstream⟩ := h.step hfaults hm fun _ => hdigest
      constructor
      case answered => exact ⟨hok, trivial⟩
      case partly =>
        intro j hj hlt
        rw [List.length_singleton] at hlt
        omega
      case stored =>
        rw [List.flatten_singleton]
        exact ⟨dir', hstored⟩
      case stream => exact hstream
  | @more content contents m ms hm hms ih =>
      intro s u dir bytes h hdigest
      rw [List.flatten_cons, ← List.append_assoc bytes] at hdigest
      obtain ⟨hok, dir', hfirst, hnext⟩ := h.step hfaults hm (by simp)
      obtain ⟨hanswered, hpartly, ⟨dir2, hstored⟩, hstream⟩ := ih hnext hdigest
      constructor
      case answered => exact ⟨hok, hanswered⟩
      case partly =>
        intro j hj hlt
        obtain _ | _ | j := j
        · exact absurd hj (Nat.lt_irrefl 0)
        · refine ⟨dir', ?_⟩
          rw [List.take_succ_cons, List.take_zero, List.flatten_singleton]
          exact hfirst
        · obtain ⟨dir2, hpart⟩ := hpartly (j + 1) (Nat.succ_pos j) (Nat.lt_of_succ_lt_succ hlt)
          refine ⟨dir2, ?_⟩
          rw [List.take_succ_cons, List.flatten_cons, ← List.append_assoc]
          exact hfirst.trans hpart
      case stored =>
        rw [List.flatten_cons, ← List.append_assoc]
        exact ⟨dir2, hfirst.trans hstored⟩
      case stream => exact hstream

/-- **A chunked CREATE reassembles the file.** For every path that the session can begin to create
and every list of chunks, on a file system without faults. -/
theorem chunked_create_reassembles (hfaults : env.NoFaults) {ns : Loc} (hhalt : s.halt = none)
    (hsession : s.sessions c = some u) (h : NewPath env s.world u dir path ns)
    {contents : List Bytes} {ms : List Message}
    (hms : Chunks .create path (md5HashString env (path ++ contents.flatten)) contents ms) :
    Reassembled env s c u dir path (md5HashString env (path ++ contents.flatten))
      (userDirectory env u ++ ns) [] contents ms := by
  have hstart : Receiving env s c u dir path (userDirectory env u ++ ns) s.world.disk.next [] :=
    ⟨hhalt, hsession, h.ready, h.placed, h.ne_nil, h.way, .first h.stream h.free rfl, by
      rw [h.stream, if_pos rfl, h.entry]⟩
  exact hstart.chunks hfaults hms rfl

/-- In a view of `bobby` without entries, `/a` is a path that can be created when nothing stands
there and no file on the way. -/
theorem newPath_bobby {w : World} (hstream : w.streams (bobby []).id = none)
    (hway : ∀ k ∈ (userDirectory (bobbyAndBobEnv [ahi]) (bobby [])).inits,
      w.disk.node k = none ∨ w.disk.node k = some .dir)
    (hfree : w.disk.node (userDirectory (bobbyAndBobEnv [ahi]) (bobby []) ++
      [⟨ascii "a", by decide⟩]) = none) :
    NewPath (bobbyAndBobEnv [ahi]) w (bobby []) ⟨bobbyPath, []⟩ (ascii "/a")
      [⟨ascii "a", by decide⟩] where
  ready := ⟨rfl, rfl, rfl⟩
  path_eq := by decide +kernel
  stream := hstream
  components := by simp
  plain := Or.inl (by decide)
  entry := rfl
  free := hfree
  way := Disk.passable_concat fun k hk => hway k ((List.mem_inits _ _).mpr hk)

/-- `bobby` stores `/a` in three chunks, the second of which is empty. -/
theorem chunked_create_reassembles_bobby :
    Reassembled (bobbyAndBobEnv [ahi]) bobbyReady 0 (bobby []) ⟨bobbyPath, []⟩ (ascii "/a")
      (md5HashString (bobbyAndBobEnv [ahi])
        (ascii "/a" ++ [ascii "h", ascii "", ascii "i"].flatten))
      (userDirectory (bobbyAndBobEnv [ahi]) (bobby []) ++ [⟨ascii "a", by decide⟩]) []
      [ascii "h", ascii "", ascii "i"]
      [chunk .create (ascii "/a") (ascii "1D6677F1499CDF9D69169C4083605DE9") (ascii "h") false,
        chunk .create (ascii "/a") (ascii "1D6677F1499CDF9D69169C4083605DE9") (ascii "") false,
        chunk .create (ascii "/a") (ascii "1D6677F1499CDF9D69169C4083605DE9") (ascii "i") true] :=
  chunked_create_reassembles (Env.noFaults_ofTables _ _ _ _) (by decide +kernel)
    (by decide +kernel)
    (newPath_bobby (by decide +kernel) (by decide +kernel) (by decide +kernel))
    (.more ⟨_, _, ⟨rfl, rfl, rfl, _, rfl, by decide +kernel⟩, rfl, rfl, by decide +kernel⟩
      (.more ⟨_, _, ⟨rfl, rfl, rfl, _, rfl, by decide +kernel⟩, rfl, rfl, by decide +kernel⟩
        (.last ⟨_, _, ⟨rfl, rfl, rfl, _, rfl, by decide +kernel⟩, rfl, rfl, by decide +kernel⟩)))

end RemoteBackup.Proofs
