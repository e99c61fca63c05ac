import RemoteBackup.Proofs.ContentRouting

/-!
# `RemoteBackup.Proofs.FailedUpdate`: what a failed UPDATE leaves

`handle_update` writes the new content to a temporary file, so until the last chunk the old
file and its digest are safe. For the last chunk it removes the old file, puts the temporary
one in its place, and only then compares the digest. When the digest is wrong it removes
what is there.

* `writable_run`: the stream of a transfer can be written to until the last chunk, so a
  transfer that was started fails in the digest check and nowhere else.
* `failed_update_loses_version`: the file and the entry are both gone afterwards.
-/

set_option autoImplicit false

namespace RemoteBackup.Proofs

open Lib

/-! ### A version, and an UPDATE that fails -/

/-- Session `c` has a synced entry for `p` with the digest `d0`, and the file of `p` is there
with the content `f0`, whose digest is `d0`. -/
structure HasVersion (env : Env) (s : Server) (c : Nat) (p f0 d0 : Bytes) : Prop where
  stored : ∃ u dir, s.sessions c = some u ∧ u.dir = some dir ∧
    dir.rsrc env.hash p = some ⟨true, d0⟩ ∧ s.world.disk.read (append dir.path p) = some f0
  matching : md5HashString env (p ++ f0) = d0

/-- Requests on one connection. -/
def requests (c : Nat) (ms : List Message) : List Event := ms.map (.request c)

/-- An UPDATE of `p`, with whatever digest. -/
def UpdateOf (p : Path) (m : Message) : Prop :=
  m.msgType = some MsgType.update.toByte ∧ ∃ digest, Signed m p digest

/-- The request reaches its writing step. -/
def Writes (env : Env) (s : Server) (c : Nat) (m : Message) : Prop :=
  ∃ u w0 target content, s.halt = none ∧ s.sessions c = some u ∧
    ReachesWrite env s.world u m w0 target content

/-- The event is not the last chunk of a transfer. -/
def Continues (env : Env) (s : Server) : Event → Prop
  | .request c m => Writes env s c m → (TlvView.ofMessage m).verifyEnd ≠ .ok true
  | _ => True

/-- The request is answered with an error. -/
def AnswersError (env : Env) (s : Server) (c : Nat) (m : Message) (err : ErrType) : Prop :=
  s.halt = none ∧ ∃ u, s.sessions c = some u ∧
    (handleRequest env s.world u m).Answered .error err

/-- From `s` on the connection `c` makes the requests `ms` and then `m`, which are UPDATEs
of `p`. The transfer starts at `m`, or at one of `ms` from which on none of them is its last
chunk. `m` is answered ERROR 205 or 206. -/
structure FailedUpdate (env : Env) (s : Server) (c : Nat) (p : Path) (ms : List Message)
    (m : Message) : Prop where
  updates : ∀ m' ∈ ms ++ [m], UpdateOf p m'
  started : Writes env (run (Server.step env) s (requests c ms)) c m ∨
    ∃ pre m1 post, ms = pre ++ m1 :: post ∧
      Writes env (run (Server.step env) s (requests c pre)) c m1 ∧
      Along (Server.step env) (Continues env) (run (Server.step env) s (requests c pre))
        (requests c (m1 :: post))
  failed : AnswersError env (run (Server.step env) s (requests c ms)) c m .updateFailed ∨
    AnswersError env (run (Server.step env) s (requests c ms)) c m .updateNoMatch

/-- Session `c` has no entry for `p`, and there is no file. -/
def Lost (env : Env) (s : Server) (c : Nat) (p : Path) : Prop :=
  ∃ u dir, s.sessions c = some u ∧ u.dir = some dir ∧ dir.rsrc env.hash p = none ∧
    s.world.disk.read (append dir.path p) = none

/-- A lost file is no version of a file. -/
theorem Lost.not_hasVersion {env : Env} {s : Server} {c : Nat} {p : Path} (h : Lost env s c p)
    (f0 d0 : Bytes) : ¬ HasVersion env s c p f0 d0 := by
  obtain ⟨u, dir, hc, hdir, hentry, -⟩ := h
  intro hversion
  obtain ⟨u', dir', hc', hdir', hentry', -⟩ := hversion.stored
  obtain rfl : u = u' := Option.some.inj (hc.symm.trans hc')
  obtain rfl : dir = dir' := Option.some.inj (hdir.symm.trans hdir')
  rw [hentry] at hentry'
  exact absurd hentry' (by simp)

/-! ### The stream of a transfer -/

/-- The user of session `c` has a stream that can be written to. -/
def Writable (s : Server) (c : Nat) : Prop :=
  ∀ u, s.halt = none → s.sessions c = some u → s.world.usable u.id = true

/-- A stream that can be written to stays when it is asked for again. -/
theorem opened_usable {env : Env} {w : World} {id : Bytes} (target : Path)
    (h : w.usable id = true) : (opened env w id target).usable id = true := by
  have hsome : w.streams id ≠ none := by
    intro hnone
    simp [World.usable, hnone] at h
  rcases w.getStream_cases env id target with ⟨-, -, hstreams⟩ | ⟨hnone, -, -⟩
  · rw [World.usable, opened, hstreams]
    exact h
  · exact absurd hnone hsome

/-- An UPDATE that is not the last chunk leaves the stream, or stops the process. -/
theorem updateTransfer_usable {env : Env} {w : World} {u : User} {dir : Dir} {view : TlvView}
    {path digest oldDigest : Bytes} (replies : MessageQueue)
    (husable : (opened env w u.id (tempPath (append dir.path path))).usable u.id = true)
    (hend : ∀ content, view.value = .ok content → view.verifyEnd ≠ .ok true) {r : Reply}
    (hr : (updateTransfer env w u dir view replies path digest oldDigest).result = .ok r) :
    (updateTransfer env w u dir view replies path digest oldDigest).user.id = u.id ∧
      (updateTransfer env w u dir view replies path digest oldDigest).world.usable u.id = true := by
  have hends := updateTransfer_ends env w u dir view replies path digest oldDigest
  generalize updateTransfer env w u dir view replies path digest oldDigest = o at hends hr ⊢
  cases hends with
  | noStream hnot => simp [husable] at hnot
  | badContent => cases hr
  | badEnd => cases hr
  | last _ content hcontent hlast => exact absurd hlast (hend content hcontent)
  | stored _ content =>
      refine ⟨rfl, ?_⟩
      show (written env _ u.id content false).usable u.id = true
      rw [World.usable_eq] at husable ⊢
      rw [written, if_neg (by simp), World.write_openOn]
      exact husable

/-- A request that reaches its writing step is an UPDATE that has passed its checks, when its
message is an UPDATE. -/
theorem Writes.update {env : Env} {s : Server} {c : Nat} {m : Message} {u : User}
    (h : Writes env s c m) (hc : s.sessions c = some u)
    (htype : m.msgType = some MsgType.update.toByte) :
    ∃ dir view replies path digest oldDigest,
      taskOf env u m = .update dir view replies path digest oldDigest ∧
      (opened env s.world u.id (tempPath (append dir.path path))).usable u.id = true := by
  obtain ⟨u', w0, target, content, -, hc', hreach⟩ := h
  obtain rfl : u = u' := Option.some.inj (hc.symm.trans hc')
  cases hreach with
  | create dir view replies path digest content htask =>
      obtain ⟨-, -, htype', -⟩ := passed_taskOf htask (by simp) (by simp)
      rw [htype] at htype'
      exact absurd htype' (by decide)
  | update dir view replies path digest oldDigest content htask husable =>
      exact ⟨dir, view, replies, path, digest, oldDigest, htask, husable⟩

/-- An UPDATE of a started transfer finds a stream that it can write to. -/
theorem transfer_usable {env : Env} {s : Server} {c : Nat} {m : Message} {u : User} {dir : Dir}
    {view : TlvView} {replies : MessageQueue} {path digest oldDigest : Bytes}
    (hhalt : s.halt = none) (hc : s.sessions c = some u)
    (htask : taskOf env u m = .update dir view replies path digest oldDigest)
    (h : Writes env s c m ∨ Writable s c) :
    (opened env s.world u.id (tempPath (append dir.path path))).usable u.id = true := by
  rcases h with h | h
  · obtain ⟨-, -, htype, -⟩ := passed_taskOf htask (by simp) (by simp)
    obtain ⟨dir', view', replies', path', digest', oldDigest', htask', husable⟩ := h.update hc htype
    rw [htask] at htask'
    cases htask'
    exact husable
  · exact opened_usable _ (h u hhalt hc)

/-- Within a transfer one more chunk keeps the stream. The chunk either finds the stream, or
it is the one that opens it. -/
theorem writable_step {env : Env} {s : Server} {c : Nat} {p : Path} {m : Message}
    (hupdate : UpdateOf p m) (hcontinues : Continues env s (.request c m))
    (h : Writes env s c m ∨ Writable s c) : Writable (Server.step env s (.request c m)) c := by
  intro u' hhalt' hc'
  have hhalt := halt_of_step hhalt'
  cases hc : s.sessions c with
  | none => simp [Server.step, hhalt, hc] at hc'
  | some u =>
  rw [step_request m hhalt hc] at hhalt' hc' ⊢
  simp only [Server.serve, Function.update_self, Option.some.injEq] at hc'
  rw [← hc']
  show (handleRequest env s.world u m).world.usable (handleRequest env s.world u m).user.id = true
  obtain ⟨r, hr⟩ := result_of_serve hhalt'
  rw [handleRequest_eq_perform] at hr ⊢
  rcases @taskOf_cases env u m _ hupdate.1 with ⟨e, htask⟩ | ⟨replies, err, htask, -⟩ | hkind
  · rw [htask] at hr
    cases hr
  · -- A request that the checks refuse does not write, so it found the stream.
    rw [htask]
    rcases h with h | h
    · obtain ⟨dir, view, replies', path, digest, oldDigest, htask', -⟩ := h.update hc hupdate.1
      rw [htask] at htask'
      exact absurd htask' (by simp)
    · exact h u hhalt hc
  · obtain ⟨dir, view, replies, path, digest, oldDigest, htask⟩ := Task.update_of_msgType hkind
    rw [htask] at hr ⊢
    have husable := transfer_usable hhalt hc htask h
    obtain ⟨-, -, -, -, hraw, -⟩ := passed_taskOf htask (by simp) (by simp)
    have hend : ∀ content, view.value = .ok content → view.verifyEnd ≠ .ok true := by
      intro content hcontent
      rw [verifyEnd_of_raw hraw]
      exact hcontinues ⟨u, _, _, content, hhalt, hc,
        .update dir view replies path digest oldDigest content htask husable hcontent⟩
    obtain ⟨hid, husable'⟩ := updateTransfer_usable replies husable hend hr
    rw [perform, hid]
    exact husable'

/-- From a chunk of a transfer to any later one the stream can be written to. Induction on
the chunks in between. -/
theorem writable_run {env : Env} {c : Nat} {p : Path} (ms : List Message) {s : Server}
    (hupdates : ∀ m ∈ ms, UpdateOf p m)
    (hcontinues : Along (Server.step env) (Continues env) s (requests c ms))
    (h : Writable s c) : Writable (run (Server.step env) s (requests c ms)) c := by
  induction ms generalizing s with
  | nil => exact h
  | cons m ms ih =>
      have hstep := writable_step (hupdates m (by simp)) hcontinues.1 (Or.inr h)
      exact ih (fun m' hm' => hupdates m' (by simp [hm'])) hcontinues.2 hstep

/-! ### The last chunk -/

/-- After a removal that succeeded the path names no file. -/
theorem read_remove {env : Env} {w : World} {p : Path} (hremove : (w.remove env p).2 = true) :
    (w.remove env p).1.disk.read p = none := by
  obtain ⟨hfails, hdisk⟩ := remove_iff.mp hremove
  rw [remove_disk hfails, Option.eq_none_iff_forall_ne_some]
  intro bytes hread
  obtain ⟨j, hstatus, -⟩ := Disk.read_eq_some.mp hread
  obtain ⟨k, hk, hj⟩ := Disk.status_eq_some.mp hstatus
  -- The path led there before, and nothing is left there.
  have hl := Disk.locate_mono (fun k hk => Disk.remove_node_some hk) hk
  rw [(Disk.remove_gone hl hdisk).1, Function.update_self] at hj
  cases hj

/-- A digest check that is answered with an error removes the file and the entry. -/
theorem CheckEnds.lost {env : Env} {w : World} {u : User} {dir : Dir} {replies : MessageQueue}
    {absolutePath path digest : Bytes} {err err' : ErrType} {o : Outcome}
    (h : CheckEnds env w u dir replies absolutePath path digest err o)
    (herror : o.Answered .error err') :
    o.user.dir = some (dir.erase env.hash path).1 ∧ o.world.disk.read absolutePath = none := by
  cases h with
  | unreadable => exact absurd herror not_answered_halted
  | stuck => exact absurd herror not_answered_halted
  | matching => exact absurd (answered_answer_iff.mp herror).1 (by simp)
  | mismatch found hread hne hremove => exact ⟨rfl, read_remove hremove⟩

/-- An UPDATE that finds a stream it can write to, and is answered with an error, loses the
version. -/
theorem updateTransfer_lost {env : Env} {w : World} {u : User} {dir : Dir} {view : TlvView}
    {replies : MessageQueue} {path digest oldDigest : Bytes} {err : ErrType}
    (husable : (opened env w u.id (tempPath (append dir.path path))).usable u.id = true)
    (herror : (updateTransfer env w u dir view replies path digest oldDigest).Answered .error err) :
    ∃ dir', (updateTransfer env w u dir view replies path digest oldDigest).user.dir = some dir' ∧
      dir'.path = dir.path ∧ dir'.rsrc env.hash path = none ∧
      (updateTransfer env w u dir view replies path digest oldDigest).world.disk.read
        (append dir.path path) = none := by
  have hends := updateTransfer_ends env w u dir view replies path digest oldDigest
  generalize updateTransfer env w u dir view replies path digest oldDigest = o at hends herror ⊢
  cases hends with
  | noStream hnot => simp [husable] at hnot
  | badContent => exact absurd herror not_answered_halted
  | badEnd => exact absurd herror not_answered_halted
  | stored => exact absurd (answered_answer_iff.mp herror).1 (by simp)
  | last _ _ _ _ o hreplace =>
      cases hreplace with
      | notRemoved => exact absurd herror not_answered_halted
      | notRenamed => exact absurd herror not_answered_halted
      | replaced _ _ _ hcheck =>
          obtain ⟨hdir, hread⟩ := hcheck.lost herror
          refine ⟨_, hdir, ?_, ?_, hread⟩
          · rw [Dir.erase_path, noteChunk_path]
          · rw [Dir.rsrc_erase, if_pos (sameKey_refl path)]

/-! ### The whole transfer -/

/-- Before the request that fails, the stream of the transfer can be written to, unless that
request is the one that opens it. -/
theorem FailedUpdate.writable {env : Env} {s : Server} {c : Nat} {p : Path} {ms : List Message}
    {m : Message} (h : FailedUpdate env s c p ms m) :
    Writes env (run (Server.step env) s (requests c ms)) c m ∨
      Writable (run (Server.step env) s (requests c ms)) c := by
  rcases h.started with hwrites | ⟨pre, m1, post, rfl, hwrites, hcontinues⟩
  · exact Or.inl hwrites
  · right
    rw [requests, List.map_append, run_append]
    have hfirst := writable_step (h.updates m1 (by simp)) hcontinues.1 (Or.inl hwrites)
    exact writable_run post (fun m' hm' => h.updates m' (by simp [hm'])) hcontinues.2 hfirst

/-- An UPDATE that fails after its transfer has started leaves neither the file nor the entry,
whatever the version was. -/
theorem failed_update_loses_version {env : Env} {s : Server} {c : Nat} {p : Path}
    {ms : List Message} {m : Message} (h : FailedUpdate env s c p ms m) :
    Lost env (run (Server.step env) s (requests c (ms ++ [m]))) c p ∧
      ∀ f0 d0, ¬ HasVersion env (run (Server.step env) s (requests c (ms ++ [m]))) c p f0 d0 := by
  suffices hlost : Lost env (run (Server.step env) s (requests c (ms ++ [m]))) c p from
    ⟨hlost, hlost.not_hasVersion⟩
  have hwritable := h.writable
  obtain ⟨err, hnotRefusal, hhalt, u, hc, herror⟩ : ∃ err, ¬ Refusal err ∧
      AnswersError env (run (Server.step env) s (requests c ms)) c m err := by
    rcases h.failed with hfailed | hfailed
    · exact ⟨_, by decide, hfailed⟩
    · exact ⟨_, by decide, hfailed⟩
  obtain ⟨htype, digest, hsigned⟩ := h.updates m (by simp)
  rw [requests, List.map_append, run_append]
  show Lost env (Server.step env (run (Server.step env) s (requests c ms)) (.request c m)) c p
  generalize run (Server.step env) s (requests c ms) = s at hwritable hhalt hc herror ⊢
  rw [step_request m hhalt hc]
  refine ⟨(handleRequest env s.world u m).user, ?_⟩
  show ∃ dir, Function.update s.sessions c (some (handleRequest env s.world u m).user) c =
    some (handleRequest env s.world u m).user ∧
      (handleRequest env s.world u m).user.dir = some dir ∧
      dir.rsrc env.hash p = none ∧
      (handleRequest env s.world u m).world.disk.read (append dir.path p) = none
  -- No check answers with this code, so the request has come to its transfer.
  obtain ⟨dir, view, replies, path, digest', oldDigest, htask⟩ :=
    Task.update_of_msgType (task_of_answered htype herror fun _ => hnotRefusal)
  obtain ⟨-, -, -, hsigned', -⟩ := passed_taskOf htask (by simp) (by simp)
  obtain ⟨rfl, rfl⟩ := hsigned.unique hsigned'
  have husable := transfer_usable hhalt hc htask hwritable
  rw [handleRequest_eq_perform, htask] at herror ⊢
  obtain ⟨dir', hdir, hpath, hentry, hread⟩ := updateTransfer_lost husable herror
  exact ⟨dir', Function.update_self _ _ _, hdir, hentry, by rw [hpath]; exact hread⟩

/-! ### A client that declares a wrong digest -/

/-- The MD5 digest of `/anew`, which is that of a file `/a` with the content `new`. -/
def anew : Bytes × List UInt32 :=
  (ascii "/anew", [0x2F52E745, 0x3A0CC5DA, 0x2096876F, 0x1D72C1F2])

/-- `bobby` has stored `/a` with the content `hi`. -/
def bobbyStored : Server :=
  run (Server.step (bobbyAndBobEnv [ahi, anew])) (Server.start bobbyWorld)
    (bobbyLogin ++ [.request 0 (chunk .create (ascii "/a")
      (ascii "1D6677F1499CDF9D69169C4083605DE9") (ascii "hi") true)])

/-- He sends `new` in two chunks, and the declared digest is not that of `new`. -/
theorem bobby_failedUpdate :
    FailedUpdate (bobbyAndBobEnv [ahi, anew]) bobbyStored 0 (ascii "/a")
      [chunk .update (ascii "/a") (ascii "00") (ascii "ne") false]
      (chunk .update (ascii "/a") (ascii "00") (ascii "w") true) where
  updates := by
    intro m hm
    simp only [List.singleton_append, List.mem_cons, List.not_mem_nil, or_false] at hm
    rcases hm with rfl | rfl
    · exact ⟨rfl, ascii "00", _, _, rfl, rfl, by decide +kernel⟩
    · exact ⟨rfl, ascii "00", _, _, rfl, rfl, by decide +kernel⟩
  started := by
    refine Or.inr ⟨[], _, [], rfl, ⟨bobby [(ascii "/a",
      ⟨true, ascii "1D6677F1499CDF9D69169C4083605DE9"⟩)], _, _, _, by decide +kernel,
      by decide +kernel, .update _ _ _ _ _ _ _ rfl (by decide +kernel) rfl⟩, ?_, trivial⟩
    intro _
    decide +kernel
  failed := Or.inr ⟨by decide +kernel, bobby [(ascii "/a",
    ⟨false, ascii "1D6677F1499CDF9D69169C4083605DE9"⟩)], by decide +kernel, by decide +kernel⟩

/-- `bobby`'s UPDATE loses the file `/a`. -/
theorem failed_update_loses_version_bobby :
    Lost (bobbyAndBobEnv [ahi, anew]) (run (Server.step (bobbyAndBobEnv [ahi, anew])) bobbyStored
      (requests 0 ([chunk .update (ascii "/a") (ascii "00") (ascii "ne") false] ++
        [chunk .update (ascii "/a") (ascii "00") (ascii "w") true]))) 0 (ascii "/a") :=
  (failed_update_loses_version bobby_failedUpdate).1

/-- The version `hi` of `/a` was there before, and is not there afterwards. -/
theorem not_failed_update_keeps_version :
    HasVersion (bobbyAndBobEnv [ahi, anew]) bobbyStored 0 (ascii "/a") (ascii "hi")
        (ascii "1D6677F1499CDF9D69169C4083605DE9") ∧
      FailedUpdate (bobbyAndBobEnv [ahi, anew]) bobbyStored 0 (ascii "/a")
        [chunk .update (ascii "/a") (ascii "00") (ascii "ne") false]
        (chunk .update (ascii "/a") (ascii "00") (ascii "w") true) ∧
      ¬ HasVersion (bobbyAndBobEnv [ahi, anew])
        (run (Server.step (bobbyAndBobEnv [ahi, anew])) bobbyStored
          (requests 0 ([chunk .update (ascii "/a") (ascii "00") (ascii "ne") false] ++
            [chunk .update (ascii "/a") (ascii "00") (ascii "w") true]))) 0 (ascii "/a")
        (ascii "hi") (ascii "1D6677F1499CDF9D69169C4083605DE9") := by
  refine ⟨⟨⟨bobby [(ascii "/a", ⟨true, ascii "1D6677F1499CDF9D69169C4083605DE9"⟩)], _,
    by decide +kernel, rfl, by decide +kernel, by decide +kernel⟩, by decide +kernel⟩,
    bobby_failedUpdate, Lost.not_hasVersion ?_ _ _⟩
  exact ⟨bobby [], _, by decide +kernel, rfl, by decide +kernel, by decide +kernel⟩

end RemoteBackup.Proofs
