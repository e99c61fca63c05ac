import RemoteBackup.Proofs.ChunkedCreate
import RemoteBackup.Proofs.UpdateChunk

/-!
# `RemoteBackup.Proofs.ChunkedUpdate`: an UPDATE in many chunks

A client sends a new version of a file as a list of UPDATE requests. `Drafting` is what holds
between two of them: the file is as it was, and the temporary file and its stream hold what came so
far, behind what the temporary file held at first.

* `Drafting.next`, `Drafting.last`: one request.
* `Drafting.chunks`: all of them, by induction on the list. When the digest matches, the file is
  replaced; when all are answered OK, it matches.
* `chunked_update_replaces_iff`: the file is replaced as it should be if and only if there was no
  temporary file, or an empty one that is none of the user's.
* `not_chunked_update_replaces`: an UPDATE that was broken off in an earlier session left one.
-/

set_option autoImplicit false

namespace RemoteBackup.Proofs

open Lib

/-- The draft stands beside the file. -/
theorem draft_dropLast {l : Loc} (hl : l ≠ []) : (draft l).dropLast = l.dropLast := by
  obtain ⟨m, n, rfl⟩ := (List.eq_nil_or_concat' l).resolve_left hl
  obtain ⟨n', -, hdraft, -⟩ := draft_concat m n
  rw [hdraft, List.dropLast_concat, List.dropLast_concat]

/-- The draft of a file is not the root. -/
theorem draft_ne_nil {l : Loc} (hl : l ≠ []) : draft l ≠ [] := by
  obtain ⟨m, n, rfl⟩ := (List.eq_nil_or_concat' l).resolve_left hl
  obtain ⟨n', -, hdraft, -⟩ := draft_concat m n
  simp [hdraft]

/-- Putting a file changes the disk at its place only. -/
theorem PutsFile.sameBut {w w' : World} {t : Loc} {i : Nat} (h : PutsFile w w' t i) {ls : List Loc}
    (ht : t ∈ ls) : Disk.SameBut ls w.disk w'.disk := by
  intro k j hk
  have hne : k ≠ t := fun hkt => hk (hkt ▸ ht)
  refine ⟨(h.files k j).trans (or_iff_left fun hkt => hne hkt.1), fun hj => h.bytes j ?_⟩
  rintro rfl
  exact hne (h.place k hj)

/-- A session that takes chunks of a new version of `path`, whose file stands at `l` and holds
`old`. Those that have come and what the temporary file held at first make up `bytes`. -/
structure Drafting (env : Env) (s : Server) (c : Nat) (u : User) (dir : Dir)
    (path oldDigest : Bytes) (l : Loc) (old bytes : Bytes) : Prop where
  running : s.halt = none
  session : s.sessions c = some u
  ready : Transferring u dir
  placed : append dir.path path = toPath l
  temp : tempPath (toPath l) = toPath (draft l)
  apart : draft l ≠ l
  entry : dir.rsrc env.hash path = some ⟨(s.world.streams u.id).isNone, oldDigest⟩
  file : ∃ j, s.world.disk.node l = some (.file j) ∧ s.world.disk.content j = old
  drafts : Drafts s.world u.id (draft l) bytes

variable {env : Env} {s : Server} {c : Nat} {u : User} {dir : Dir} {path digest oldDigest : Bytes}
  {l : Loc} {old bytes content : Bytes} {m : Message}

/-- The view after a chunk. -/
theorem Drafting.entries (h : Drafting env s c u dir path oldDigest l old bytes) (isLast : Bool)
    (q : Path) :
    (noteChunk env dir path (chunkResource (s.world.streams u.id).isNone isLast digest
      oldDigest)).rsrc env.hash q =
        if sameKey env.hash path q then some ⟨isLast, if isLast then digest else oldDigest⟩
        else dir.rsrc env.hash q :=
  noteChunk_entries (fun hsome => by rw [h.entry, hsome]) isLast q

/-- What the handler does with a chunk. -/
theorem Drafting.served (hfaults : env.NoFaults)
    (h : Drafting env s c u dir path oldDigest l old bytes) {isLast : Bool}
    (hm : Uploads .update path digest content isLast m) (hne : oldDigest ≠ digest) :
    ∃ w' i replies, PutsFile s.world w' (draft l) i ∧ w'.openOn u.id = some i ∧
      w'.settled u.id i = bytes ++ content ∧
      handleRequest env s.world u m =
        let dir' := noteChunk env dir path
          (chunkResource (s.world.streams u.id).isNone isLast digest oldDigest)
        if isLast then
          checkDigest env (renamed env (closed w' u.id) (toPath l)) u dir' replies (toPath l) path
            digest .updateNoMatch .updateFailed
        else answer w' { u with dir := some dir' } replies .ok .none := by
  obtain ⟨view, replies, htask, hcontent, hend⟩ := taskOf_updates hm h.ready h.entry hne
  obtain ⟨j, hfile, -⟩ := h.file
  obtain ⟨w', i, hputs, hopen, hsettled, hserved⟩ :=
    @updateTransfer_drafts env s.world _ l hfaults u dir view replies path digest oldDigest h.placed
      h.temp h.apart j hfile h.drafts content isLast hcontent hend
  exact ⟨w', i, replies, hputs, hopen, hsettled, by
    rw [handleRequest_eq_perform, htask, perform, hserved]⟩

/-- A chunk that is not the last. -/
theorem Drafting.next (hfaults : env.NoFaults)
    (h : Drafting env s c u dir path oldDigest l old bytes)
    (hm : Uploads .update path digest content false m) (hne : oldDigest ≠ digest) :
    OnRequest (AnsweredOk env) s (.request c m) ∧ ∃ dir',
      Uploaded env s c u dir path l [l, draft l] ⟨false, oldDigest⟩ old
        (Server.step env s (.request c m)) dir' ∧
      Drafting env (Server.step env s (.request c m)) c { u with dir := some dir' } dir' path
        oldDigest l old (bytes ++ content) := by
  obtain ⟨w', i, replies, hputs, hopen, hsettled, hserved⟩ := h.served hfaults hm hne
  have hentries := @Drafting.entries _ _ _ _ _ _ digest _ _ _ _ h false
  generalize hdir' : noteChunk env dir path
    (chunkResource (s.world.streams u.id).isNone false digest oldDigest) = dir' at hserved hentries
  have hroot : dir'.path = dir.path := by rw [← hdir', noteChunk_path]
  dsimp only at hserved
  rw [if_neg (by simp)] at hserved
  obtain ⟨j, hfile, hold⟩ := h.file
  -- The chunk has gone to the temporary file, which is another one.
  have hfile' : ∃ j, w'.disk.node l = some (.file j) ∧ w'.disk.content j = old := by
    have hkept := hputs.sameBut (List.mem_singleton_self _) l j (by simpa using Ne.symm h.apart)
    exact ⟨j, hkept.1.mpr hfile, (hkept.2 hfile).trans hold⟩
  have hothers : Disk.SameBut [l, draft l] s.world.disk w'.disk := hputs.sameBut (by simp)
  obtain ⟨hok, huploaded⟩ := uploaded_of_served h.running h.session hserved hroot hentries hfile'
    hothers
  refine ⟨hok, dir', huploaded, ?_⟩
  rw [step_request m h.running h.session, Server.serve, hserved]
  constructor
  case running => rfl
  case session => exact Function.update_self ..
  case ready => exact ⟨h.ready.auth, h.ready.synced, rfl⟩
  case placed =>
    rw [hroot]
    exact h.placed
  case temp => exact h.temp
  case apart => exact h.apart
  case entry =>
    obtain ⟨pending, hstream⟩ := World.openOn_eq_some.mp hopen
    rw [hentries path, if_pos (sameKey_refl path), if_neg (by simp)]
    show _ = some (Resource.mk (w'.streams u.id).isNone oldDigest)
    rw [hstream]
    rfl
  case file => exact hfile'
  case drafts =>
    rw [← hsettled]
    exact .later i hopen ((hputs.files _ i).mpr (Or.inr ⟨rfl, rfl⟩))

/-- The last chunk. It is answered OK when the digest is that of all that was written, and then the
file is replaced. -/
theorem Drafting.last (hfaults : env.NoFaults)
    (h : Drafting env s c u dir path oldDigest l old bytes)
    (hm : Uploads .update path digest content true m) (hne : oldDigest ≠ digest) :
    (AnsweredOk env s.world u m ↔ md5HashString env (path ++ (bytes ++ content)) = digest) ∧
      (md5HashString env (path ++ (bytes ++ content)) = digest →
        (Server.step env s (.request c m)).world.streams u.id = none ∧
        (Server.step env s (.request c m)).world.disk.node (draft l) = none ∧
        ∃ dir', Uploaded env s c u dir path l [l, draft l] ⟨true, digest⟩ (bytes ++ content)
          (Server.step env s (.request c m)) dir') := by
  obtain ⟨w', i, replies, hputs, hopen, hsettled, hserved⟩ := h.served hfaults hm hne
  have hentries := @Drafting.entries _ _ _ _ _ _ digest _ _ _ _ h true
  generalize hdir' : noteChunk env dir path
    (chunkResource (s.world.streams u.id).isNone true digest oldDigest) = dir' at hserved hentries
  have hroot : dir'.path = dir.path := by rw [← hdir', noteChunk_path]
  dsimp only at hserved
  rw [if_pos rfl] at hserved
  obtain ⟨j, hfile, -⟩ := h.file
  have hfile' := (hputs.files l j).mpr (Or.inl hfile)
  have hdraft := (hputs.files (draft l) i).mpr (Or.inr ⟨rfl, rfl⟩)
  obtain ⟨-, -, hnode, hbytes, hstreams⟩ := @renamed_closed env w' u.id l hfaults i j h.temp h.apart
    hdraft hfile'
  have hstands : (renamed env (closed w' u.id) (toPath l)).disk.node l = some (.file i) := by
    rw [hnode, if_pos rfl]
  have hheld : (renamed env (closed w' u.id) (toPath l)).disk.content i = bytes ++ content := by
    rw [hbytes, hsettled]
  -- The digest is taken of the file that was the temporary one.
  have hread : (renamed env (closed w' u.id) (toPath l)).disk.read (toPath l) =
      some (bytes ++ content) := by
    rw [Disk.read_toPath hstands, hheld]
  refine ⟨by rw [AnsweredOk, hserved, checkDigest_ok_iff hfaults hread], fun hdigest => ?_⟩
  rw [checkDigest_matching hfaults hread hdigest] at hserved
  have hothers : Disk.SameBut [l, draft l] s.world.disk
      (renamed env (closed w' u.id) (toPath l)).disk :=
    (hputs.sameBut (by simp)).trans (renamed_sameBut hfaults h.temp h.apart hdraft hfile' hopen)
  obtain ⟨-, huploaded⟩ := uploaded_of_served h.running h.session hserved hroot hentries
    ⟨i, hstands, hheld⟩ hothers
  refine ⟨?_, ?_, dir', huploaded⟩
  all_goals rw [step_request m h.running h.session, Server.serve, hserved]
  · show (renamed env (closed w' u.id) (toPath l)).streams u.id = none
    rw [hstreams, closed, World.eraseStream_streams_self]
  · show (renamed env (closed w' u.id) (toPath l)).disk.node (draft l) = none
    rw [hnode, if_neg h.apart, if_pos rfl]

/-- What the chunks of a new version come to, when the digest matches. -/
structure Rewritten (env : Env) (s : Server) (c : Nat) (u : User) (dir : Dir) (path digest : Bytes)
    (l : Loc) (old bytes : Bytes) (contents : List Bytes) (ms : List Message) : Prop where
  answered : Along (Server.step env) (OnRequest (AnsweredOk env)) s (requests c ms)
  before : ∀ j, j < ms.length → ∃ i,
    (run (Server.step env) s (requests c (ms.take j))).world.disk.node l = some (.file i) ∧
    (run (Server.step env) s (requests c (ms.take j))).world.disk.content i = old
  stream : (run (Server.step env) s (requests c ms)).world.streams u.id = none
  moved : (run (Server.step env) s (requests c ms)).world.disk.node (draft l) = none
  stored : ∃ dir', Uploaded env s c u dir path l [l, draft l] ⟨true, digest⟩
    (bytes ++ contents.flatten) (run (Server.step env) s (requests c ms)) dir'

/-- All requests of a new version. Induction on the list. -/
theorem Drafting.chunks (hfaults : env.NoFaults) {contents : List Bytes} {ms : List Message}
    (hms : Chunks .update path digest contents ms) (hne : oldDigest ≠ digest) :
    ∀ {s : Server} {u : User} {dir : Dir} {bytes : Bytes},
      Drafting env s c u dir path oldDigest l old bytes →
      (md5HashString env (path ++ (bytes ++ contents.flatten)) = digest →
        Rewritten env s c u dir path digest l old bytes contents ms) ∧
      (Along (Server.step env) (OnRequest (AnsweredOk env)) s (requests c ms) →
        md5HashString env (path ++ (bytes ++ contents.flatten)) = digest) := by
  induction hms with
  | @last content m hm =>
      intro s u dir bytes h
      obtain ⟨hok, hdone⟩ := h.last hfaults hm hne
      rw [List.flatten_singleton]
      refine ⟨fun hdigest => ?_, fun hall => hok.mp (hall.1 u h.running h.session)⟩
      obtain ⟨hstream, hmoved, hstored⟩ := hdone hdigest
      constructor
      case answered => exact ⟨onRequest_of_session h.session (hok.mpr hdigest), trivial⟩
      case before =>
        intro j hj
        obtain rfl := Nat.lt_one_iff.mp hj
        exact h.file
      case stream => exact hstream
      case moved => exact hmoved
      case stored =>
        rw [List.flatten_singleton]
        exact hstored
  | @more content contents m ms hm hms ih =>
      intro s u dir bytes h
      obtain ⟨hok, dir1, hfirst, hnext⟩ := h.next hfaults hm hne
      obtain ⟨hrest, hback⟩ := ih hnext
      rw [List.flatten_cons, ← List.append_assoc bytes]
      refine ⟨fun hdigest => ?_, fun hall => hback hall.2⟩
      obtain ⟨hanswered, hbefore, hstream, hmoved, dir2, hstored⟩ := hrest hdigest
      constructor
      case answered => exact ⟨hok, hanswered⟩
      case before =>
        intro j hj
        obtain _ | j := j
        · exact h.file
        · exact hbefore j (Nat.lt_of_succ_lt_succ hj)
      case stream => exact hstream
      case moved => exact hmoved
      case stored =>
        rw [List.flatten_cons, ← List.append_assoc bytes]
        exact ⟨dir2, hfirst.trans hstored⟩

/-! ### A version that is replaced -/

/-- A synced session without a stream, and a plain path that its view holds with this digest and
whose file is on the disk. -/
structure Updatable (env : Env) (s : Server) (c : Nat) (u : User) (dir : Dir)
    (path oldDigest old : Bytes) : Prop where
  running : s.halt = none
  session : s.sessions c = some u
  ready : Transferring u dir
  path_eq : dir.path = toPath (userDirectory env u)
  plain : PlainPath path
  stream : s.world.streams u.id = none
  entry : dir.rsrc env.hash path = some ⟨true, oldDigest⟩
  file : ∃ j, s.world.disk.node (place (userDirectory env u) path) = some (.file j) ∧
    s.world.disk.content j = old

/-- What a complete UPDATE is to do: all requests are answered OK, the file keeps its content until
the last and has the new one then, with its entry, and no stream is left. The files other than it
and the temporary file are as before, and a temporary file that was one of the user's is there. -/
structure Replaced (env : Env) (s : Server) (c : Nat) (u : User) (dir : Dir)
    (path digest old : Bytes) (contents : List Bytes) (ms : List Message) : Prop where
  answered : Along (Server.step env) (OnRequest (AnsweredOk env)) s (requests c ms)
  before : ∀ j, j < ms.length → ∃ i,
    (run (Server.step env) s (requests c (ms.take j))).world.disk.node
      (place (userDirectory env u) path) = some (.file i) ∧
    (run (Server.step env) s (requests c (ms.take j))).world.disk.content i = old
  stream : (run (Server.step env) s (requests c ms)).world.streams u.id = none
  stored : ∃ dir', Uploaded env s c u dir path (place (userDirectory env u) path)
    [place (userDirectory env u) path, draft (place (userDirectory env u) path)] ⟨true, digest⟩
    contents.flatten (run (Server.step env) s (requests c ms)) dir'
  kept : ∀ i, s.world.disk.node (draft (place (userDirectory env u) path)) = some (.file i) →
    (∃ e ∈ dir.content,
      place (userDirectory env u) e.1 = draft (place (userDirectory env u) path)) →
    ∃ i, (run (Server.step env) s (requests c ms)).world.disk.node
      (draft (place (userDirectory env u) path)) = some (.file i)

/-- Nothing stands in the place of the temporary file, or an empty file that is none of the
user's. -/
def DraftFree (env : Env) (s : Server) (u : User) (dir : Dir) (path : Path) : Prop :=
  s.world.disk.node (draft (place (userDirectory env u) path)) = none ∨
    (∃ i, s.world.disk.node (draft (place (userDirectory env u) path)) = some (.file i) ∧
      s.world.disk.content i = []) ∧
    ∀ e ∈ dir.content, place (userDirectory env u) e.1 ≠ draft (place (userDirectory env u) path)

/-- An update can go on once its draft holds what was sent so far. -/
theorem Updatable.drafting (h : Updatable env s c u dir path oldDigest old)
    (hdrafts : Drafts s.world u.id (draft (place (userDirectory env u) path)) bytes) :
    Drafting env s c u dir path oldDigest (place (userDirectory env u) path) old bytes := by
  have hplaced := plain_placed (userDirectory_ne_nil env u) h.plain
  exact ⟨h.running, h.session, h.ready, by rw [h.path_eq]; exact hplaced.path, hplaced.temp,
    hplaced.draft_ne, by rw [h.entry, h.stream]; rfl, h.file, hdrafts⟩

/-- **When a complete UPDATE replaces the file.** For every server, plain path and list of chunks
with a new digest: it does so if and only if nothing stood in the place of the temporary file, or
an empty file that was none of the user's. -/
theorem chunked_update_replaces_iff (hfaults : env.NoFaults)
    (h : Updatable env s c u dir path oldDigest old) {contents : List Bytes} {ms : List Message}
    (hne : oldDigest ≠ md5HashString env (path ++ contents.flatten))
    (hms : Chunks .update path (md5HashString env (path ++ contents.flatten)) contents ms) :
    Replaced env s c u dir path (md5HashString env (path ++ contents.flatten)) old contents ms ↔
      DraftFree env s u dir path := by
  have hplaced := plain_placed (userDirectory_ne_nil env u) h.plain
  obtain ⟨j, hfile, -⟩ := h.file
  have hl := hplaced.ne_nil
  rcases hdraft : s.world.disk.node (draft (place (userDirectory env u) path)) with _ | _ | i
  · -- The temporary file is new.
    have hfree : s.world.disk.Free (draft (place (userDirectory env u) path)) := by
      refine ⟨draft_ne_nil hl, hdraft, ?_⟩
      rw [draft_dropLast hl]
      exact s.world.disk.parent_dir _ hl (by rw [hfile]; simp)
    obtain ⟨hanswered, hbefore, hstream, -, hstored⟩ :=
      ((h.drafting (.new h.stream hfree)).chunks hfaults hms hne).1 rfl
    refine ⟨fun _ => Or.inl hdraft, fun _ => ⟨hanswered, hbefore, hstream, hstored, ?_⟩⟩
    intro i hi
    exact absurd (hdraft.symm.trans hi) (by simp)
  · -- A directory does not open.
    have hdirectory : ¬ DraftFree env s u dir path := by
      rintro (hnone | ⟨⟨i, hi, -⟩, -⟩)
      · exact absurd (hdraft.symm.trans hnone) (by simp)
      · exact absurd (hdraft.symm.trans hi) (by simp)
    refine iff_of_false (fun hreplaced => ?_) hdirectory
    obtain ⟨m, rest, content, isLast, rfl, hm⟩ := hms.first
    have hok := hreplaced.answered.1 u h.running h.session
    obtain ⟨view, replies, htask, -, -⟩ := taskOf_updates hm h.ready h.entry hne
    rw [AnsweredOk, handleRequest_eq_perform, htask, perform] at hok
    exact updateTransfer_dir hfaults (by rw [h.path_eq]; exact hplaced.path) hplaced.temp h.stream
      hdraft hok
  · -- A file is there already, and what it holds stays in front.
    have hchunks := (h.drafting (.leftover h.stream i hdraft)).chunks hfaults hms hne
    constructor
    · intro hreplaced
      obtain ⟨-, -, -, hmoved, dir', hstored⟩ := hchunks.1 (hchunks.2 hreplaced.answered)
      obtain ⟨k, hk, hk'⟩ := hstored.file
      obtain ⟨dir2, hstored2⟩ := hreplaced.stored
      obtain ⟨k2, hk2, hk2'⟩ := hstored2.file
      obtain rfl : k = k2 := by simpa using hk.symm.trans hk2
      refine Or.inr ⟨⟨i, hdraft, by simpa using hk'.symm.trans hk2'⟩, fun e he hplace => ?_⟩
      obtain ⟨i', hi'⟩ := hreplaced.kept i hdraft ⟨e, he, hplace⟩
      exact absurd (hmoved.symm.trans hi') (by simp)
    · rintro (hnone | ⟨⟨i', hi', hempty⟩, hother⟩)
      · exact absurd (hdraft.symm.trans hnone) (by simp)
      · obtain rfl : i = i' := by simpa using hdraft.symm.trans hi'
        rw [hempty] at hchunks
        obtain ⟨hanswered, hbefore, hstream, -, hstored⟩ := hchunks.1 rfl
        refine ⟨hanswered, hbefore, hstream, hstored, ?_⟩
        rintro - - ⟨e, he, hplace⟩
        exact absurd hplace (hother e he)

/-- `bobby` replaces `/a` in two chunks. -/
theorem chunked_update_replaces_iff_bobby :
    Replaced (bobbyAndBobEnv [ahi, anew]) bobbyStored 0
        (bobby [(ascii "/a", ⟨true, ascii "1D6677F1499CDF9D69169C4083605DE9"⟩)])
        ⟨bobbyPath, [(ascii "/a", ⟨true, ascii "1D6677F1499CDF9D69169C4083605DE9"⟩)]⟩ (ascii "/a")
        (md5HashString (bobbyAndBobEnv [ahi, anew]) (ascii "/a" ++ [ascii "ne", ascii "w"].flatten))
        (ascii "hi") [ascii "ne", ascii "w"]
        [chunk .update (ascii "/a") (ascii "2F52E7453A0CC5DA2096876F1D72C1F2") (ascii "ne") false,
          chunk .update (ascii "/a") (ascii "2F52E7453A0CC5DA2096876F1D72C1F2") (ascii "w") true] ↔
      DraftFree (bobbyAndBobEnv [ahi, anew]) bobbyStored
        (bobby [(ascii "/a", ⟨true, ascii "1D6677F1499CDF9D69169C4083605DE9"⟩)])
        ⟨bobbyPath, [(ascii "/a", ⟨true, ascii "1D6677F1499CDF9D69169C4083605DE9"⟩)]⟩
        (ascii "/a") :=
  @chunked_update_replaces_iff (bobbyAndBobEnv [ahi, anew]) bobbyStored 0 _ _ _
    (ascii "1D6677F1499CDF9D69169C4083605DE9") _ (Env.noFaults_ofTables _ _ _ _)
    { running := by decide +kernel
      session := by decide +kernel
      ready := ⟨rfl, rfl, rfl⟩
      path_eq := by decide +kernel
      plain := ⟨[⟨ascii "a", by decide⟩], by simp, Or.inl (by decide)⟩
      stream := by decide +kernel
      entry := by decide +kernel
      file := ⟨0, by decide +kernel⟩ }
    _ _ (by decide +kernel)
    (.more ⟨_, _, ⟨rfl, rfl, rfl, _, rfl, by decide +kernel⟩, rfl, rfl, by decide +kernel⟩
      (.last ⟨_, _, ⟨rfl, rfl, rfl, _, rfl, by decide +kernel⟩, rfl, rfl, by decide +kernel⟩))

/-- `bobby` stores `/a`, begins to update it and goes. He comes again and synchronizes. -/
def bobbyBreaksOff : List Event :=
  bobbyLogin ++ [.request 0 storeA,
    .request 0 (chunk .update (ascii "/a") (ascii "00") (ascii "x") false), .shutdown 0] ++
    (bobbyAgain ++ [.request 1 (bareMessage .sync)])

/-- The server then. -/
def bobbyBack : Server :=
  run (Server.step (bobbyAndBobEnv [ahi, anew])) (Server.start bobbyWorld) bobbyBreaksOff

/-- What `bobby` has then. The temporary file of the first session is one of his files. -/
def bobbyFiles : List (Path × Resource) :=
  [(ascii "/a.temp", ⟨true, ascii "00000000000000000000000000000000"⟩),
    (ascii "/a", ⟨true, ascii "1D6677F1499CDF9D69169C4083605DE9"⟩)]

/-- The UPDATE of `/a` appends to it, and is not answered OK. -/
theorem not_chunked_update_replaces :
    Along (Server.step (bobbyAndBobEnv [ahi, anew]))
        (OneUser (bobbyAndBobEnv [ahi, anew]) (ascii "bobby")) (Server.start bobbyWorld)
        bobbyBreaksOff ∧
      Updatable (bobbyAndBobEnv [ahi, anew]) bobbyBack 1 (bobby bobbyFiles) ⟨bobbyPath, bobbyFiles⟩
        (ascii "/a") (ascii "1D6677F1499CDF9D69169C4083605DE9") (ascii "hi") ∧
      Chunks .update (ascii "/a")
        (md5HashString (bobbyAndBobEnv [ahi, anew]) (ascii "/a" ++ [ascii "new"].flatten))
        [ascii "new"]
        [chunk .update (ascii "/a") (ascii "2F52E7453A0CC5DA2096876F1D72C1F2") (ascii "new") true] ∧
      ascii "1D6677F1499CDF9D69169C4083605DE9" ≠
        md5HashString (bobbyAndBobEnv [ahi, anew]) (ascii "/a" ++ [ascii "new"].flatten) ∧
      ¬ Replaced (bobbyAndBobEnv [ahi, anew]) bobbyBack 1 (bobby bobbyFiles) ⟨bobbyPath, bobbyFiles⟩
        (ascii "/a")
        (md5HashString (bobbyAndBobEnv [ahi, anew]) (ascii "/a" ++ [ascii "new"].flatten))
        (ascii "hi") [ascii "new"]
        [chunk .update (ascii "/a") (ascii "2F52E7453A0CC5DA2096876F1D72C1F2") (ascii "new")
          true] := by
  have hsession : bobbyBack.sessions 1 = some (bobby bobbyFiles) := by decide +kernel
  refine ⟨?_, ?_, ?_, by decide +kernel, fun hreplaced => ?_⟩
  · refine along_append.mpr ⟨⟨fun _ => rfl, oneUser_bobbyAuth _ _,
      oneUser_of_msgType _ _ (by decide), oneUser_of_msgType _ _ (by decide),
      oneUser_of_msgType _ _ (by decide), trivial, trivial⟩, ?_⟩
    -- The first session is over when the second begins.
    exact ⟨none_left (by simp [bobbyLogin]) (by decide +kernel), oneUser_bobbyAuth _ _,
      oneUser_of_msgType _ _ (by decide), trivial⟩
  · exact { running := by decide +kernel
            session := hsession
            ready := ⟨rfl, rfl, rfl⟩
            path_eq := by decide +kernel
            plain := ⟨[⟨ascii "a", by decide⟩], by simp, Or.inl (by decide)⟩
            stream := by decide +kernel
            entry := by decide +kernel
            file := ⟨0, by decide +kernel⟩ }
  · exact .last ⟨_, _, ⟨rfl, rfl, rfl, _, rfl, by decide +kernel⟩, rfl, rfl, by decide +kernel⟩
  · have hok := hreplaced.answered.1 (bobby bobbyFiles) (by decide +kernel) hsession
    revert hok
    unfold AnsweredOk
    decide +kernel

end RemoteBackup.Proofs
