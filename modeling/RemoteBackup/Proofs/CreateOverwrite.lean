import RemoteBackup.Proofs.ContentRouting

/-!
# `RemoteBackup.Proofs.CreateOverwrite`: a CREATE over a file that exists

`handle_create` looks a path up in the session's own view, by its spelling, and then opens
and removes the file that the path resolves to. A file that the view does not know under this
spelling is appended to, or removed when the digest does not match.

A user's own unfinished CREATE of the path does write to its file. The state of the server
does not say which request opened a stream, so `Tracked` adds it, and
`run_tracked_server` shows that nothing else depends on it.

* `createTransfer_keeps_iff`: when one CREATE leaves a file alone.
* `create_keeps_files_iff`: the same along every run, with any number of sessions.
-/

set_option autoImplicit false

namespace RemoteBackup.Proofs

open Lib

/-! ### Who opened a stream -/

/-- The server, and for each user the path whose CREATE opened the stream that is in the
table, if a CREATE did. -/
structure Tracked where
  server : Server
  origin : Bytes → Option Path

/-- The path that a CREATE is about, once its checks are passed. -/
def createPath (env : Env) (u : User) (m : Message) : Option Path :=
  match taskOf env u m with
  | .create _ _ _ path _ => some path
  | _ => none

/-- One event. A request that puts a stream into the table has opened it. -/
def Tracked.step (env : Env) (t : Tracked) (e : Event) : Tracked where
  server := Server.step env t.server e
  origin :=
    match e with
    | .request c m =>
        match t.server.sessions c with
        | some u =>
            if t.server.world.streams u.id = none ∧
                (Server.step env t.server e).world.streams u.id ≠ none then
              Function.update t.origin u.id (createPath env u m)
            else t.origin
        | none => t.origin
    | _ => t.origin

/-- The server runs as it does without the record. -/
theorem run_tracked_server (env : Env) (t : Tracked) (es : List Event) :
    (run (Tracked.step env) t es).server = run (Server.step env) t.server es := by
  induction es generalizing t with
  | nil => rfl
  | cons e es ih => exact ih (t.step env e)

/-! ### One CREATE -/

/-- The file at `l` is still there and has the same bytes. -/
def KeepsFile (w w' : World) (l : Loc) (i : Nat) : Prop :=
  w'.disk.node l = some (.file i) ∧ w'.disk.content i = w.disk.content i

/-- A CREATE of `path` over the file `i` adds no byte to the file: the user's stream is open
elsewhere, or neither the stream nor the request has bytes to write. -/
def AddsNothing (w : World) (id : Bytes) (i : Nat) (content : Bytes) : Prop :=
  w.streams id = none ∨ w.openOn id = some i → w.pendingOf id = [] ∧ content = []

/-- The digest check of a CREATE of `path` over the file `i` would not remove it: the declared
digest is the file's, or the file cannot be read, or it cannot be removed. -/
def DigestKeeps (env : Env) (w : World) (absolutePath path digest : Bytes) (i : Nat) : Prop :=
  let calls := .openStream absolutePath :: .createDirectories (parentPath absolutePath) :: w.calls
  md5HashString env (path ++ w.disk.content i) = digest ∨
    env.fails calls (.openRead absolutePath) = true ∨
    env.fails (.openRead absolutePath :: calls) (.remove absolutePath) = true

/-- The bytes of a file after the write of a CREATE over it. -/
theorem created_written_content {env : Env} {w : World} {dir : Dir} {path : Path} {id : Bytes}
    {l : Loc} {i : Nat} (content : Bytes)
    (hl : w.disk.locate (append dir.path path) = some l) (hi : w.disk.node l = some (.file i))
    (husable : (opened env (created env w dir path) id (append dir.path path)).usable id = true) :
    (written env (opened env (created env w dir path) id (append dir.path path)) id content
        true).disk.content i =
      w.disk.content i ++
        if w.streams id = none ∨ w.openOn id = some i then w.pendingOf id ++ content else [] := by
  have hcreated := created_extends env w dir path
  have hopened := opened_extends env (created env w dir path) id (append dir.path path)
  have hlt := w.disk.fresh l i hi
  have hstreams : (created env w dir path).streams = w.streams :=
    w.createDirectories_streams env _
  rw [written_content, written_settled, World.settled,
    (hcreated.trans hopened).content i hlt, List.append_assoc]
  congr 1
  -- The stream is open on `i` when it is new, or when it was before.
  have hstatus' := hcreated.status (Disk.status_eq_some.mpr ⟨l, hl, hi⟩)
  have hstatus := hopened.status hstatus'
  have hopen : (opened env (created env w dir path) id (append dir.path path)).openOn id = some i ↔
      w.streams id = none ∨ w.openOn id = some i := by
    have hnames := opened_names_iff husable
    rw [hstatus, hstatus', hstreams] at hnames
    simpa [World.openOn, hstreams] using hnames
  have hpending : (opened env (created env w dir path) id (append dir.path path)).pendingOf id =
      w.pendingOf id := by
    rw [opened_pendingOf]
    unfold World.pendingOf
    rw [hstreams]
  rw [hpending]
  simp only [hopen]
  split <;> simp

/-- The condition under which a CREATE that goes on to the disk leaves the file `i` alone. -/
def HarmlessTransfer (env : Env) (w : World) (u : User) (dir : Dir) (view : TlvView)
    (path digest : Bytes) (i : Nat) : Prop :=
  (w.createDirectories env (parentPath (append dir.path path))).2 = true →
  (opened env (created env w dir path) u.id (append dir.path path)).usable u.id = true →
  ∀ content, view.value = .ok content →
    AddsNothing w u.id i content ∧
      (view.verifyEnd = .ok true → DigestKeeps env w (append dir.path path) path digest i)

/-- The bytes that a CREATE adds to the file are none exactly when `AddsNothing`. -/
theorem addsNothing_iff (w : World) (id : Bytes) (i : Nat) (content : Bytes) :
    AddsNothing w id i content ↔
      w.disk.content i ++
        (if w.streams id = none ∨ w.openOn id = some i then w.pendingOf id ++ content else []) =
      w.disk.content i := by
  rw [List.append_right_eq_self, AddsNothing]
  split
  · rename_i h
    simp [h]
  · rename_i h
    simp [h]

/-- The digest check keeps the file when it adds nothing and the declared digest is right, or a
fault keeps the check from removing the file. -/
theorem CheckEnds.keepsFile_iff {env : Env} {w w' : World} {u : User} {dir : Dir}
    {replies : MessageQueue} {absolutePath path digest : Bytes} {err : ErrType} {o : Outcome}
    {l : Loc} {i : Nat}
    (h : CheckEnds env w' u dir replies absolutePath path digest err o)
    (hl : w'.disk.locate absolutePath = some l) (hi : w'.disk.node l = some (.file i))
    (hcalls : w'.calls =
      .openStream absolutePath :: .createDirectories (parentPath absolutePath) :: w.calls) :
    KeepsFile w o.world l i ↔
      w'.disk.content i = w.disk.content i ∧ DigestKeeps env w absolutePath path digest i := by
  have hread : w'.disk.read absolutePath = some (w'.disk.content i) :=
    Disk.read_eq_some.mpr ⟨i, Disk.status_eq_some.mpr ⟨l, hl, hi⟩, rfl⟩
  have hmd5 := @World.md5Hash_of_read env w' absolutePath path _ hread
  have hremove := @World.remove_of_file env (checked w' absolutePath) absolutePath l i hl hi
  have hrecorded : (checked w' absolutePath).calls = .openRead absolutePath ::
      .openStream absolutePath :: .createDirectories (parentPath absolutePath) :: w.calls := by
    rw [checked, World.record_calls, hcalls]
  rw [hrecorded] at hremove
  rw [hcalls] at hmd5
  unfold KeepsFile DigestKeeps
  dsimp only
  cases h with
  | unreadable hfound =>
      -- Only a fault keeps a file that is there from being read.
      rw [hmd5] at hfound
      split at hfound
      · rename_i hfails
        simp [halted, checked, hi, hfails]
      · exact absurd hfound (by simp)
  | matching hfound =>
      rw [hmd5] at hfound
      split at hfound
      · exact absurd hfound (by simp)
      · have hdigest := Except.ok.inj hfound
        simp only [answer, checked, World.record_disk, hi, true_and]
        constructor
        · intro hbytes
          exact ⟨hbytes, Or.inl (by rw [← hbytes, hdigest])⟩
        · exact fun hbytes => hbytes.1
  | stuck found hfound hne hstuck =>
      -- The removal has failed, so the file stays whatever its digest is.
      rw [hremove.1, Bool.not_eq_false'] at hstuck
      simp only [halted, World.remove_content, hremove.2, hstuck, if_true]
      simp [checked, hi]
  | mismatch found hfound hne hgone =>
      -- The file is gone, and no fault explains it, so the digest must have been wrong.
      rw [hremove.1, Bool.not_eq_true'] at hgone
      rw [hmd5] at hfound
      split at hfound
      · exact absurd hfound (by simp)
      · rename_i hreads
        have hdigest := Except.ok.inj hfound
        simp only [answer, hremove.2, hgone, Bool.false_eq_true, if_false, Function.update_self,
          reduceCtorEq, false_and, or_false, false_iff, not_and, not_or]
        intro hbytes
        exact ⟨by rw [← hbytes, hdigest]; exact hne, hreads⟩

/-- A CREATE that goes on to the disk leaves the file its path resolves to alone exactly when it
is harmless. -/
theorem createTransfer_keeps_iff {env : Env} {w : World} {u : User} {dir : Dir} {view : TlvView}
    {replies : MessageQueue} {path digest : Bytes} {l : Loc} {i : Nat}
    (hl : w.disk.locate (append dir.path path) = some l) (hi : w.disk.node l = some (.file i)) :
    KeepsFile w (createTransfer env w u dir view replies path digest).world l i ↔
      HarmlessTransfer env w u dir view path digest i := by
  have hcreated := created_extends env w dir path
  have hopened := hcreated.trans
    (opened_extends env (created env w dir path) u.id (append dir.path path))
  have hlt := w.disk.fresh l i hi
  have hends := createTransfer_ends env w u dir view replies path digest
  generalize createTransfer env w u dir view replies path digest = o at hends ⊢
  unfold HarmlessTransfer
  cases hends with
  | noParent hparent =>
      simp only [hparent, Bool.false_eq_true, false_implies, iff_true]
      exact ⟨hcreated.node l _ hi, hcreated.content i hlt⟩
  | hasParent hparent o hwrite =>
      simp only [hparent, true_implies]
      -- What the write leaves at `l`, and the bytes it adds.
      have hnode : ∀ content, (written env (opened env (created env w dir path) u.id
          (append dir.path path)) u.id content true).disk.node l = some (.file i) := by
        intro content
        rw [written_node]
        exact hopened.node l _ hi
      cases hwrite with
      | noStream husable =>
          simp only [husable, Bool.false_eq_true, false_implies, iff_true]
          exact ⟨hopened.node l _ hi, hopened.content i hlt⟩
      | badContent husable e hcontent =>
          simp only [hcontent, reduceCtorEq, false_implies, implies_true, iff_true]
          exact ⟨hopened.node l _ hi, hopened.content i hlt⟩
      | badEnd husable content hcontent e hend =>
          have hbytes := created_written_content content hl hi husable
          simp only [husable, hcontent, hend, true_implies, Except.ok.injEq, forall_eq',
            reduceCtorEq, false_implies, and_true, addsNothing_iff]
          simp only [KeepsFile, halted, hnode content, true_and, hbytes]
      | stored husable content hcontent hend =>
          have hbytes := created_written_content content hl hi husable
          simp only [husable, hcontent, hend, true_implies, Except.ok.injEq, forall_eq',
            Bool.false_eq_true, false_implies, and_true, addsNothing_iff]
          simp only [KeepsFile, answer, hnode content, true_and, hbytes]
      | last husable content hcontent hend o hcheck =>
          -- The chunk was flushed before the close, so the check meets the same bytes.
          have hbytes := created_written_content content hl hi husable
          have hclosed : (closed (written env (opened env (created env w dir path) u.id
              (append dir.path path)) u.id content true) u.id).disk.content i =
              (written env (opened env (created env w dir path) u.id
                (append dir.path path)) u.id content true).disk.content i := by
            rw [closed, World.closed_content, written_content]
          have hlocate : (closed (written env (opened env (created env w dir path) u.id
              (append dir.path path)) u.id content true) u.id).disk.locate (append dir.path path) =
              some l :=
            Disk.locate_mono (by simp [closed]) (hopened.locate hl)
          simp only [husable, hcontent, hend, true_implies, Except.ok.injEq, forall_eq',
            addsNothing_iff]
          rw [hcheck.keepsFile_iff hlocate (by rw [closed, World.closed_node, hnode])
            (by simp [closed, opened, created]), hclosed, hbytes]

/-! ### Runs of the server -/

/-- A CREATE leaves the file that its path resolves to alone, unless the user's own unfinished
CREATE of the same path is writing to it. -/
def PreservesFile (env : Env) (origin : Bytes → Option Path) (w : World) (u : User)
    (m : Message) : Prop :=
  ∀ dir path digest l i, m.msgType = some MsgType.create.toByte → u.dir = some dir →
    Signed m path digest → w.disk.locate (append dir.path path) = some l →
    w.disk.node l = some (.file i) → ¬ (w.openOn u.id = some i ∧ origin u.id = some path) →
    KeepsFile w (handleRequest env w u m).world l i

/-- The request is turned down by a check, or what goes on to the disk is harmless. -/
def HarmlessCreate (env : Env) (origin : Bytes → Option Path) (w : World) (u : User)
    (m : Message) : Prop :=
  ∀ dir view replies path digest l i, taskOf env u m = .create dir view replies path digest →
    w.disk.locate (append dir.path path) = some l → w.disk.node l = some (.file i) →
    ¬ (w.openOn u.id = some i ∧ origin u.id = some path) →
    HarmlessTransfer env w u dir view path digest i

/-- The checks of a CREATE let it go on, or the request changes nothing in the world. -/
theorem create_task_cases {env : Env} {w : World} {u : User} {m : Message}
    (htype : m.msgType = some MsgType.create.toByte) :
    (∃ dir view replies path digest, taskOf env u m = .create dir view replies path digest) ∨
      (handleRequest env w u m).world = w := by
  rw [handleRequest_eq_perform]
  rcases @taskOf_cases env u m _ htype with ⟨h, htask⟩ | ⟨replies, err, htask, -⟩ | hkind
  · exact Or.inr (by rw [htask]; rfl)
  · exact Or.inr (by rw [htask]; rfl)
  · exact Or.inl (Task.create_of_msgType hkind)

/-- A CREATE leaves the file alone exactly when it is turned down or harmless. -/
theorem preservesFile_iff (env : Env) (origin : Bytes → Option Path) (w : World) (u : User)
    (m : Message) : PreservesFile env origin w u m ↔ HarmlessCreate env origin w u m := by
  constructor
  · intro h dir view replies path digest l i htask hl hi hown
    obtain ⟨-, -, htype, hsigned, -, hdir, -⟩ := passed_taskOf htask (by simp) (by simp)
    have hkeeps := h dir path digest l i htype hdir hsigned hl hi hown
    rw [handleRequest_eq_perform, htask] at hkeeps
    exact (createTransfer_keeps_iff hl hi).mp hkeeps
  · intro h dir path digest l i htype hdir hsigned hl hi hown
    rcases @create_task_cases env w u m htype with
      ⟨dir', view, replies, path', digest', htask⟩ | hsame
    · obtain ⟨-, -, -, hsigned', -, hdir', -⟩ := passed_taskOf htask (by simp) (by simp)
      obtain ⟨rfl, rfl⟩ := hsigned.unique hsigned'
      obtain rfl : dir' = dir := by
        rw [hdir] at hdir'
        exact (Option.some.inj hdir').symm
      rw [handleRequest_eq_perform, htask]
      exact (createTransfer_keeps_iff hl hi).mpr
        (h dir' view replies path digest l i htask hl hi hown)
    · exact ⟨by rw [hsame, hi], by rw [hsame]⟩

/-- In every run of the server, with any number of sessions, no CREATE damages a file exactly
when every CREATE is harmless. -/
theorem create_keeps_files_iff (env : Env) (t : Tracked) (es : List Event) :
    Along (Tracked.step env) (fun t => OnRequest (PreservesFile env t.origin) t.server) t es ↔
      Along (Tracked.step env) (fun t => OnRequest (HarmlessCreate env t.origin) t.server) t es :=
  along_congr (along_of_forall (fun _ _ => trivial) _ _) fun t e _ =>
    onRequest_congr (preservesFile_iff env t.origin) t.server e

/-- `bobby` has stored `/a`. A CREATE of `a`, which is the same file under another spelling,
appends to it. -/
theorem not_create_keeps_files :
    ¬ Along (Tracked.step (bobbyAndBobEnv [ahi]))
      (fun t => OnRequest (PreservesFile (bobbyAndBobEnv [ahi]) t.origin) t.server)
      ⟨Server.start bobbyWorld, fun _ => none⟩
      ((bobbyLogin ++ [.request 0 (chunk .create (ascii "/a")
        (ascii "1D6677F1499CDF9D69169C4083605DE9") (ascii "hi") true)]) ++
        [.request 0 (chunk .create (ascii "a") (ascii "00") (ascii "o") false)]) := by
  intro h
  have hpreserves : PreservesFile _ _ _ (bobby
      [(ascii "/a", ⟨true, ascii "1D6677F1499CDF9D69169C4083605DE9"⟩)]) _ :=
    (along_iff _ _ _).mp h _ _ [] rfl _ (by decide +kernel) (by decide +kernel)
  have hkeeps := hpreserves _ (ascii "a") (ascii "00")
    [⟨ascii "backup", by decide⟩, ⟨ascii "F5CEC4A9E67057735BC2B7577B80CB9D", by decide⟩,
      ⟨ascii "a", by decide⟩] 0 rfl rfl ⟨_, _, rfl, rfl, by decide +kernel⟩ (by decide +kernel)
    (by decide +kernel) (by decide +kernel)
  exact absurd hkeeps.2 (by decide +kernel)

end RemoteBackup.Proofs
