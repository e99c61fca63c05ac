import RemoteBackup.Proofs.StoredUpload

/-!
# `RemoteBackup.Proofs.ContentRouting`: where the bytes of a chunk go

`ReachesWrite` says that a request reaches the writing step, with which target path and
which bytes. The bytes go to the user's stream. They belong to the file that the target path
names.

* `settled_after`: nothing that a handler does after the write appends a byte to a file.
* `routesContent_iff`: the bytes of one request go to the file it names, and only there,
  exactly when the user has no stream or has it open on that file, or there are no bytes.
* `content_routing_iff`: the same along every run of the server.
-/

set_option autoImplicit false

namespace RemoteBackup.Proofs

open Lib

/-- The request reaches the writing step of its handler: `w0` is the world in which it asks for
the user's stream, with this target path, and these are its bytes. -/
inductive ReachesWrite (env : Env) (w : World) (u : User) (m : Message) :
    World → Path → Bytes → Prop
  | create (dir : Dir) (view : TlvView) (replies : MessageQueue) (path digest content : Bytes)
      (htask : taskOf env u m = .create dir view replies path digest)
      (hparent : (w.createDirectories env (parentPath (append dir.path path))).2 = true)
      (husable : (opened env (created env w dir path) u.id (append dir.path path)).usable u.id =
        true)
      (hcontent : view.value = .ok content) :
      ReachesWrite env w u m (created env w dir path) (append dir.path path) content
  | update (dir : Dir) (view : TlvView) (replies : MessageQueue)
      (path digest oldDigest content : Bytes)
      (htask : taskOf env u m = .update dir view replies path digest oldDigest)
      (husable : (opened env w u.id (tempPath (append dir.path path))).usable u.id = true)
      (hcontent : view.value = .ok content) :
      ReachesWrite env w u m w (tempPath (append dir.path path)) content

/-- The bytes of the request are appended to the file that the target path names, and to no
other file, whatever the handler does after the write. -/
def RoutesContent (env : Env) (w : World) (u : User) (m : Message) : Prop :=
  ∀ w0 target content, ReachesWrite env w u m w0 target content → ∀ i,
    (handleRequest env w u m).world.settled u.id i =
      (opened env w0 u.id target).settled u.id i ++
        if (opened env w0 u.id target).disk.status target = some (.file i) then content else []

/-- When the request asks for the user's stream, there is none, or it is open on the file that
the target path names, or the request brings no bytes. -/
def StreamFollows (env : Env) (w : World) (u : User) (m : Message) : Prop :=
  ∀ w0 target content, ReachesWrite env w u m w0 target content →
    content = [] ∨ w0.streams u.id = none ∨
      ∃ i, w0.openOn u.id = some i ∧ w0.disk.status target = some (.file i)

/-! ### What follows the write -/

/-- The bytes of a chunk go to the file that the stream is on, whenever it is flushed. -/
theorem written_settled (env : Env) (w : World) (id content : Bytes) (flushed : Bool) (i : Nat) :
    (written env w id content flushed).settled id i =
      w.settled id i ++ if w.openOn id = some i then content else [] := by
  unfold written
  cases flushed with
  | false => exact w.write_settled env id content i
  | true =>
      rw [if_pos rfl, World.flush_settled]
      exact w.write_settled env id content i

/-- Without a stream nothing waits to be written. -/
theorem settled_of_noStream {w : World} {id : Bytes} (h : w.streams id = none) :
    w.settled id = w.disk.content := by
  funext i
  simp [World.settled, World.openOn, h]

/-- Closing the stream settles its bytes, and no call after that changes the bytes of a
file. -/
theorem CheckEnds.settled {env : Env} {w : World} {u : User} {dir : Dir}
    {replies : MessageQueue} {absolutePath path digest : Bytes} {err : ErrType} {o : Outcome}
    (h : CheckEnds env w u dir replies absolutePath path digest err o)
    (hstreams : w.streams u.id = none) : o.world.settled u.id = w.disk.content := by
  have hchecked : (checked w absolutePath).streams u.id = none := hstreams
  have hremoved : ((checked w absolutePath).remove env absolutePath).1.streams u.id = none := by
    rw [World.remove_streams, hchecked]
  cases h with
  | unreadable => exact settled_of_noStream hchecked
  | matching => exact settled_of_noStream hchecked
  | stuck => exact (settled_of_noStream hremoved).trans (World.remove_content env _ _)
  | mismatch => exact (settled_of_noStream hremoved).trans (World.remove_content env _ _)

/-- The last chunk of an UPDATE moves entries and writes what was waiting. -/
theorem ReplaceEnds.settled {env : Env} {w : World} {u : User} {dir : Dir}
    {replies : MessageQueue} {absolutePath path digest : Bytes} {o : Outcome}
    (h : ReplaceEnds env u dir replies absolutePath path digest w o) :
    o.world.settled u.id = w.settled u.id := by
  have hclosed : (closed w u.id).disk.content = w.settled u.id := w.closed_content u.id
  have hstreams := closed_streams_self w u.id
  have hremoved : (removed env (closed w u.id) absolutePath).streams u.id = none := by
    rw [removed, World.remove_streams, hstreams]
  have hrenamed : (renamed env (closed w u.id) absolutePath).streams u.id = none := by
    rw [renamed, World.rename_streams, hremoved]
  cases h with
  | notRemoved =>
      exact (settled_of_noStream hremoved).trans ((World.remove_content env _ _).trans hclosed)
  | notRenamed =>
      exact (settled_of_noStream hrenamed).trans
        ((World.rename_content env _ _ _).trans ((World.remove_content env _ _).trans hclosed))
  | replaced _ _ _ hcheck =>
      exact (hcheck.settled hrenamed).trans
        ((World.rename_content env _ _ _).trans ((World.remove_content env _ _).trans hclosed))

/-- A chunk that is written goes to the file that the stream is on. -/
theorem WriteEnds.settled {env : Env} {w : World} {u : User} {dir : Dir} {view : TlvView}
    {replies : MessageQueue} {path digest early : Bytes} {target : Path} {flushed : Bool}
    {failed : ErrType} {Last : World → Outcome → Prop} {o : Outcome}
    (h : WriteEnds env w u dir view replies path digest early target flushed failed Last o)
    (husable : (opened env w u.id target).usable u.id = true) {content : Bytes}
    (hcontent : view.value = .ok content)
    (hlast : ∀ w o, Last w o → o.world.settled u.id = w.settled u.id) :
    o.world.settled u.id =
      (written env (opened env w u.id target) u.id content flushed).settled u.id := by
  -- A view has one value, so the bytes written are `content`.
  have hvalue : ∀ content', view.value = .ok content' → content' = content := by
    intro content' h'
    rw [hcontent] at h'
    exact (Except.ok.inj h').symm
  cases h with
  | noStream hnot => simp [husable] at hnot
  | badContent _ e herr => simp [hcontent] at herr
  | badEnd _ content' h' => rw [← hvalue content' h']; rfl
  | stored _ content' h' => rw [← hvalue content' h']; rfl
  | last _ content' h' _ _ hl => rw [← hvalue content' h']; exact hlast _ _ hl

/-- Once a request has reached the writing step, what it leaves settled is what the write has
settled. -/
theorem settled_after {env : Env} {w w0 : World} {u : User} {m : Message} {target content : Bytes}
    (h : ReachesWrite env w u m w0 target content) :
    ∃ flushed, (handleRequest env w u m).world.settled u.id =
      (written env (opened env w0 u.id target) u.id content flushed).settled u.id := by
  rw [handleRequest_eq_perform]
  cases h with
  | create dir view replies path digest content htask hparent husable hcontent =>
      refine ⟨true, ?_⟩
      rw [htask, perform]
      have hends := createTransfer_ends env w u dir view replies path digest
      generalize createTransfer env w u dir view replies path digest = o at hends ⊢
      cases hends with
      | noParent hparent' => simp [hparent] at hparent'
      | hasParent _ _ hwrite =>
          refine hwrite.settled husable hcontent fun w' o hcheck => ?_
          rw [hcheck.settled (closed_streams_self w' u.id)]
          exact w'.closed_content u.id
  | update dir view replies path digest oldDigest content htask husable hcontent =>
      refine ⟨false, ?_⟩
      rw [htask, perform]
      exact (updateTransfer_ends env w u dir view replies path digest oldDigest).settled husable
        hcontent fun w' o hreplace => hreplace.settled

/-- A chunk that is written has found a stream that is open. -/
theorem ReachesWrite.usable {env : Env} {w w0 : World} {u : User} {m : Message}
    {target content : Bytes} (h : ReachesWrite env w u m w0 target content) :
    (opened env w0 u.id target).usable u.id = true := by
  cases h with
  | create _ _ _ _ _ _ _ _ husable => exact husable
  | update _ _ _ _ _ _ _ _ husable => exact husable

/-! ### The condition -/

/-- The stream that a request can use is open on the file its target names exactly when the
user had no stream, or one on that file. -/
theorem opened_names_iff {env : Env} {w : World} {id : Bytes} {target : Path}
    (husable : (opened env w id target).usable id = true) :
    (∃ i, (opened env w id target).openOn id = some i ∧
        (opened env w id target).disk.status target = some (.file i)) ↔
      w.streams id = none ∨
        ∃ i, w.openOn id = some i ∧ w.disk.status target = some (.file i) := by
  have hdisk : (opened env w id target).disk = (w.openStream env target).1.disk :=
    w.getStream_disk env id target
  rw [World.usable_eq, Option.isSome_iff_exists] at husable
  obtain ⟨i, hi⟩ := husable
  rcases w.getStream_cases env id target with ⟨hsome, -, hstreams⟩ | ⟨hnone, -, hstreams⟩
  · -- The old stream stays, and its file was there before the open.
    have hopen : (opened env w id target).openOn id = w.openOn id := by
      rw [World.openOn, opened, hstreams, World.openOn]
    rw [hopen] at hi
    rw [hopen, hdisk]
    simp only [hsome, false_or]
    refine exists_congr fun j => and_congr_right fun hj => ?_
    exact w.openStream_status_of_lt env target (World.openOn_lt hj)
  · -- The new stream is open on the file that was found or made.
    have hopen : (opened env w id target).openOn id = (w.openStream env target).2 := by
      rw [World.openOn, opened, hstreams, Function.update_self]
      rfl
    rw [hopen] at hi
    rw [hopen, hdisk]
    simp only [hnone, true_or, iff_true]
    exact ⟨i, hi, World.openStream_status hi⟩

/-- The bytes of one request go to the file it names, and only there, exactly when the stream
follows. -/
theorem routesContent_iff (env : Env) (w : World) (u : User) (m : Message) :
    RoutesContent env w u m ↔ StreamFollows env w u m := by
  unfold RoutesContent StreamFollows
  refine forall_congr' fun w0 => forall_congr' fun target => forall_congr' fun content =>
    forall_congr' fun hreach => ?_
  obtain ⟨flushed, hafter⟩ := settled_after hreach
  have husable := hreach.usable
  rw [← opened_names_iff husable, hafter]
  rw [World.usable_eq, Option.isSome_iff_exists] at husable
  obtain ⟨i, hi⟩ := husable
  simp only [written_settled, hi, Option.some.injEq, List.append_cancel_left_eq, exists_eq_left']
  constructor
  -- Read at the file that the stream writes to.
  · intro h
    by_cases hstatus : (opened env w0 u.id target).disk.status target = some (.file i)
    · exact Or.inr hstatus
    · have hfile := h i
      rw [if_pos rfl, if_neg hstatus] at hfile
      exact Or.inl hfile
  · rintro (rfl | hstatus) j
    · simp
    · rw [hstatus]
      simp only [Option.some.injEq, Node.file.injEq]

/-! ### Runs of the server -/

/-- In every run of the server, with any number of sessions, content goes only to the file it
names exactly when at every request the user's stream follows. -/
theorem content_routing_iff (env : Env) (s : Server) (es : List Event) :
    Along (Server.step env) (OnRequest (RoutesContent env)) s es ↔
      Along (Server.step env) (OnRequest (StreamFollows env)) s es :=
  along_congr (along_of_forall (fun _ _ => trivial) _ _) fun s e _ =>
    onRequest_congr (routesContent_iff env) s e

/-- While the CREATE of `/a` is unfinished, the bytes of a CREATE of `/b` go to `/a`. -/
theorem not_content_routing :
    ¬ Along (Server.step (bobbyAndBobEnv [])) (OnRequest (RoutesContent (bobbyAndBobEnv [])))
      (Server.start bobbyWorld)
      ((bobbyLogin ++ [.request 0 (chunk .create (ascii "/a") (ascii "00") (ascii "x") false)]) ++
        [.request 0 (chunk .create (ascii "/b") (ascii "00") (ascii "hi") false)]) := by
  intro h
  have hroutes : RoutesContent _ _ (bobby [(ascii "/a", ⟨false, tempDigest⟩)]) _ :=
    onRequest_of_along h (by decide +kernel) (by decide +kernel)
  have hbytes :=
    hroutes _ _ _ (.create _ _ _ _ _ _ rfl (by decide +kernel) (by decide +kernel) rfl) 0
  exact absurd hbytes (by decide +kernel)

end RemoteBackup.Proofs
