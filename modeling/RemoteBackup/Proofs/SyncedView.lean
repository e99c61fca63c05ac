import RemoteBackup.Proofs.Mirror

/-!
# `RemoteBackup.Proofs.SyncedView`: a session from its SYNC on

A SYNC that is answered OK fills the view with the files below the user's directory. From
then on every request is a run of steps of the catalog, so the view mirrors the files in
every state of the run.

* `SyncsAlone.mirrored`: what a SYNC leaves.
* `mirrored_step`, `mirrored_run`: the invariant `Mirrored` along a run, in which the other
  sessions spare the user's directory.
* `view_mirrors_disk`: what the invariant says about the entries and the files.
-/

set_option autoImplicit false

namespace RemoteBackup.Proofs

open Lib Relation

/-! ### SYNC -/

/-- The entry that a SYNC of the directory `d` makes for the place `l`, if a file is there. -/
def fileEntry (env : Env) (disk : Disk) (d l : Loc) : Option (Path × Resource) :=
  match disk.node l with
  | some (.file i) =>
      some (toPath (l.drop d.length),
        ⟨true, fileDigest env (toPath (l.drop d.length)) (disk.content i)⟩)
  | _ => none

/-- An entry that was inserted stands behind those that were there. -/
theorem insertOrAssign_inserted {hash : Bytes → UInt64} {dir : Dir} {p : Path} {r : Resource}
    (h : (dir.insertOrAssign hash p r).2 = true) :
    (dir.insertOrAssign hash p r).1.content = dir.content ++ [(p, r)] := by
  unfold Dir.insertOrAssign at h ⊢
  split
  · rename_i hcontains
    rw [if_pos hcontains] at h
    exact absurd h (by simp)
  · rfl

/-- A place below a directory, as the iterator and `handle_sync` write it. -/
theorem toPath_below {d l : Loc} (hd : d ≠ []) (h : d <+: l) (hne : l ≠ d) :
    toPath d ++ toPath (l.drop d.length) = toPath l ∧ l.drop d.length ≠ [] := by
  obtain ⟨rest, rfl⟩ := h
  have hrest : rest ≠ [] := by
    rintro rfl
    exact hne (List.append_nil d)
  rw [List.drop_left]
  exact ⟨toPath_append hd hrest, hrest⟩

/-- An entry of the traversal that does not stop it adds the file's entry to the view. -/
theorem syncEntry_done {env : Env} {w w' : World} {dir dir' : Dir} {replies replies' : MessageQueue}
    {d l : Loc} (hd : d ≠ []) (hdir : dir.path = toPath d) (hl : d <+: l) (hne : l ≠ d)
    (h : syncEntry env w dir replies (toPath l) = (w', dir', replies', .done)) :
    dir'.content = dir.content ++ (fileEntry env w.disk d l).toList := by
  have hrelative : (toPath l).drop dir.path.length = toPath (l.drop d.length) := by
    rw [hdir, ← (toPath_below hd hl hne).1, List.drop_left]
  unfold syncEntry at h
  simp only [World.record_disk, Disk.status_toPath, hrelative] at h
  split at h
  · exact absurd (congrArg (fun r => r.2.2.2) h) (by simp)
  rw [fileEntry]
  rcases hnode : w.disk.node l with _ | _ | i
  · simp only [hnode, Prod.mk.injEq] at h
    rw [← h.2.1]
    exact (List.append_nil _).symm
  · simp only [hnode, Prod.mk.injEq] at h
    rw [← h.2.1]
    exact (List.append_nil _).symm
  · have hread := @World.md5Hash_of_read env (w.record (.isRegularFile (toPath l))) (toPath l)
      (toPath (l.drop d.length)) _ (Disk.read_toPath hnode)
    simp only [hnode] at h
    generalize (w.record (.isRegularFile (toPath l))).md5Hash env (toPath l)
      (toPath (l.drop d.length)) = read at h hread
    obtain ⟨w1, t | digest⟩ := read
    · -- A file that cannot be read stops the traversal.
      exact absurd (congrArg (fun r => r.2.2.2) h) (by simp)
    have hdigest : digest = fileDigest env (toPath (l.drop d.length)) (w.disk.content i) := by
      have hread' : Except.ok digest = _ := hread
      split at hread'
      · exact absurd hread' (by simp)
      · exact Except.ok.inj hread'
    have hinsert := @insertOrAssign_inserted env.hash dir (toPath (l.drop d.length)) ⟨true, digest⟩
    dsimp only at h
    generalize dir.insertOrAssign env.hash (toPath (l.drop d.length)) ⟨true, digest⟩ = inserted
      at h hinsert
    obtain ⟨dir1, _ | _⟩ := inserted
    · -- So does a key that is there already.
      exact absurd (congrArg (fun r => r.2.2.2) h) (by simp)
    · simp only [Prod.mk.injEq] at h
      rw [← h.2.1, hinsert rfl, hdigest]
      rfl

/-- A traversal that meets every entry adds the entries of the files. Induction on the entries
still to come. -/
theorem syncLoop_done {env : Env} {d : Loc} (hd : d ≠ []) (ls : List Loc)
    (hls : ∀ l ∈ ls, d <+: l ∧ l ≠ d) {w w' : World} {dir dir' : Dir}
    {replies replies' : MessageQueue} (hdir : dir.path = toPath d)
    (h : syncLoop env (ls.map toPath) w dir replies = (w', dir', replies', .done)) :
    dir'.content = dir.content ++ ls.filterMap (fileEntry env w.disk d) := by
  induction ls generalizing w dir replies with
  | nil =>
      simp only [List.map_nil, syncLoop, Prod.mk.injEq] at h
      rw [← h.2.1]
      exact (List.append_nil _).symm
  | cons l ls ih =>
      obtain ⟨hl, hne⟩ := hls l List.mem_cons_self
      have hreads := syncEntry_reads env w dir replies (toPath l)
      rw [List.map_cons] at h
      unfold syncLoop at h
      generalize hentry : syncEntry env w dir replies (toPath l) = entry at h hreads
      obtain ⟨w1, dir1, replies1, _ | _ | t⟩ := entry
      · have hadded := syncEntry_done hd hdir hl hne hentry
        dsimp only at h
        split at h
        · exact absurd (congrArg (fun r => r.2.2.2) h) (by simp)
        -- The entry of `l` comes before those of the rest, and reading has changed no file.
        · have hrest := ih (fun l' hl' => hls l' (List.mem_cons_of_mem _ hl'))
            (hreads.path.trans hdir) h
          rw [hrest, hadded, World.record_disk, hreads.disk, List.append_assoc]
          congr 1
          rw [List.filterMap_cons]
          cases fileEntry env w.disk d l <;> rfl
      · exact absurd (congrArg (fun r => r.2.2.2) h) (by simp)
      · exact absurd (congrArg (fun r => r.2.2.2) h) (by simp)

/-- The entries below a directory are all that stands there, the directory itself apart. -/
theorem mem_entriesBelow {disk : Disk} {d l : Loc} :
    l ∈ disk.entriesBelow d ↔ d <+: l ∧ l ≠ d ∧ disk.node l ≠ none := by
  simp only [Disk.entriesBelow, List.mem_filter, List.mem_dedup, decide_eq_true_eq,
    and_iff_right_iff_imp]
  exact fun h => disk.listed l h.2.2

/-- The iterator of a user's directory meets the places below it. -/
theorem iterate_below {env : Env} {w : World} {d : Loc} (hd : d ≠ []) {entries : List Path}
    (h : iterate env w (toPath d) = some entries) :
    w.disk.node d = some .dir ∧ entries = (env.visit (w.disk.entriesBelow d)).map toPath := by
  unfold iterate at h
  rw [denote_toPath, Disk.status_toPath] at h
  split at h
  · exact absurd h (by simp)
  split at h
  · rename_i hroot
    refine ⟨hroot, ?_⟩
    rw [← Option.some.inj h]
    refine List.map_congr_left fun l hl => ?_
    obtain ⟨hbelow, hne, -⟩ := mem_entriesBelow.mp ((env.visit_perm _).mem_iff.mp hl)
    exact (toPath_below hd hbelow hne).1
  · exact absurd h (by simp)

/-- A view that lists exactly the files below its directory. -/
structure FreshView (env : Env) (w : World) (d : Loc) (dir : Dir) : Prop where
  path : dir.path = toPath d
  root : w.disk.node d = some .dir
  entries : ∀ e, e ∈ dir.content ↔ ∃ l, d <+: l ∧ l ≠ d ∧ fileEntry env w.disk d l = some e

/-- A SYNC that is answered OK leaves a fresh view, when the view was empty before. -/
theorem handleSync_fresh {env : Env} {w : World} {u : User} {replies : MessageQueue} {d : Loc}
    {dir : Dir} (hd : d ≠ []) (hdir : u.dir = some dir) (hpath : dir.path = toPath d)
    (hempty : dir.content = []) (h : (handleSync env w u replies).Answered .ok .none) :
    ∃ dir', (handleSync env w u replies).user = { u with dir := some dir', isSynced := true } ∧
      FreshView env w d dir' := by
  have hptr : u.dirPtr = .ok dir := by simp [User.dirPtr, hdir]
  simp only [handleSync, hptr, attempt, hpath] at h ⊢
  cases hiterate : iterate env w (toPath d) with
  | none =>
      rw [hiterate] at h
      exact absurd h not_answered_error
  | some entries =>
      rw [hiterate] at h
      obtain ⟨hroot, hentries⟩ := iterate_below hd hiterate
      have hbelow : ∀ l ∈ env.visit (w.disk.entriesBelow d), d <+: l ∧ l ≠ d := fun l hl =>
        ⟨(mem_entriesBelow.mp ((env.visit_perm _).mem_iff.mp hl)).1,
          (mem_entriesBelow.mp ((env.visit_perm _).mem_iff.mp hl)).2.1⟩
      have hreads := syncLoop_reads env entries (w.record (.iterate (toPath d))) dir replies
      dsimp only at h ⊢
      generalize hloop : syncLoop env entries (w.record (.iterate (toPath d))) dir replies = r
        at h hreads ⊢
      obtain ⟨w', dir', replies', _ | _ | _ | _⟩ := r
      · rw [hentries] at hloop
        have hcontent := syncLoop_done hd _ hbelow hpath hloop
        rw [hempty, List.nil_append] at hcontent
        -- The iterator visits the entries below `d` in some order, each once.
        refine ⟨dir', rfl, hreads.path.trans hpath, hroot, fun e => ?_⟩
        rw [hcontent, List.mem_filterMap]
        constructor
        · rintro ⟨l, hl, he⟩
          exact ⟨l, (hbelow l hl).1, (hbelow l hl).2, he⟩
        · rintro ⟨l, hl, hne, he⟩
          refine ⟨l, (env.visit_perm _).mem_iff.mpr (mem_entriesBelow.mpr ⟨hl, hne, ?_⟩), he⟩
          intro hnone
          rw [fileEntry, hnone] at he
          exact absurd he (by simp)
      · exact absurd h not_answered_error
      · exact absurd h not_answered_error
      · exact absurd h not_answered_halted

/-- The text of a location names its place below the directory. -/
theorem place_toPath {d rest : Loc} (hd : d ≠ []) (hrest : rest ≠ []) :
    place d (toPath rest) = d ++ rest := by
  rw [place, append_plain hd hrest (Or.inl rfl), denote_toPath]

/-- The entry of a file carries its path and the digest of its bytes. -/
theorem fileEntry_eq_some {env : Env} {disk : Disk} {d l : Loc} {e : Path × Resource} :
    fileEntry env disk d l = some e ↔ ∃ i, disk.node l = some (.file i) ∧
      e = (toPath (l.drop d.length),
        ⟨true, fileDigest env (toPath (l.drop d.length)) (disk.content i)⟩) := by
  unfold fileEntry
  rcases disk.node l with _ | _ | i
  · simp
  · simp
  · simp [eq_comm]

/-- The key of an entry is plain, and its place is that of the file. -/
theorem FreshView.mem {env : Env} {w : World} {d : Loc} {dir : Dir} (hd : d ≠ [])
    (h : FreshView env w d dir) {e : Path × Resource} (he : e ∈ dir.content) :
    PlainPath e.1 ∧ ∃ i, d <+: place d e.1 ∧ w.disk.node (place d e.1) = some (.file i) ∧
      e = (toPath ((place d e.1).drop d.length),
        ⟨true, fileDigest env e.1 (w.disk.content i)⟩) := by
  obtain ⟨l, hl, hne, hentry⟩ := (h.entries e).mp he
  obtain ⟨i, hi, rfl⟩ := fileEntry_eq_some.mp hentry
  have hrest := (toPath_below hd hl hne).2
  obtain ⟨rest, rfl⟩ := hl
  rw [List.drop_left] at hrest ⊢
  refine ⟨⟨rest, hrest, Or.inl rfl⟩, i, ?_, ?_, ?_⟩
  · rw [place_toPath hd hrest]
    exact List.prefix_append d rest
  · rw [place_toPath hd hrest, hi]
  · rw [place_toPath hd hrest, List.drop_left]

/-- After a SYNC the view mirrors the files, when the user has no stream. `w'` is the world
after the SYNC, which has the same tree. -/
theorem FreshView.mirrors {env : Env} {w w' : World} {d : Loc} {dir : Dir} {id : Bytes}
    (hd : d ≠ []) (h : FreshView env w d dir)
    (hdisk : w'.disk = w.disk) (hnone : w'.openOn id = none) :
    PlainView d dir ∧ Mirrors env w' id d dir := by
  refine ⟨⟨h.path, fun e he => (h.mem hd he).1⟩, ?_⟩
  have hstands : ∀ {l i}, (catalogOf w' id d dir).stands l i ↔
      d <+: l ∧ w.disk.node l = some (.file i) := by
    intro l i
    rw [← hdisk]
    rfl
  constructor
  case one_place =>
    intro l l' i hl hl'
    exact w.disk.no_links l l' i (hstands.mp hl).2 (hstands.mp hl').2
  case one_file =>
    intro l i j hi hj
    have hsame := (hstands.mp hi).2.symm.trans (hstands.mp hj).2
    cases hsame
    rfl
  case sole =>
    -- A key is written from the place of its file.
    intro k s x k' s' x' hk hk' heq
    obtain ⟨-, i, -, hi, he⟩ := h.mem hd hk
    obtain ⟨-, j, -, hj, he'⟩ := h.mem hd hk'
    simp only [Prod.mk.injEq, Resource.mk.injEq] at he he' heq hi hj
    have hkey : k = k' := he.1.trans (heq ▸ he'.1.symm)
    subst hkey
    rw [hi] at hj
    cases hj
    exact ⟨rfl, he.2.1.trans he'.2.1.symm, he.2.2.trans he'.2.2.symm⟩
  case stored =>
    intro k s x hk
    obtain ⟨-, i, hbelow, hi, he⟩ := h.mem hd hk
    simp only [Prod.mk.injEq, Resource.mk.injEq] at he
    refine ⟨i, hstands.mpr ⟨hbelow, hi⟩, fun _ => ?_⟩
    show fileDigest env k (w'.disk.content i) = x
    rw [hdisk, he.2.2]
  case known =>
    -- Every file has its key, so there is no draft.
    intro l i hl
    left
    obtain ⟨hbelow, hi⟩ := hstands.mp hl
    have hne : l ≠ d := by
      rintro rfl
      rw [h.root] at hi
      exact absurd hi (by simp)
    refine ⟨_, _, _, (h.entries _).mpr ⟨l, hbelow, hne, fileEntry_eq_some.mpr ⟨i, hi, rfl⟩⟩, ?_⟩
    obtain ⟨hjoin, hrest⟩ := toPath_below hd hbelow hne
    rw [place_toPath hd hrest]
    exact List.prefix_iff_eq_append.mp hbelow
  case owned =>
    intro i hi
    have hsome : w'.openOn id = some i := hi
    rw [hnone] at hsome
    exact absurd hsome (by simp)

/-! ### Whose stream it is -/

/-- The digest check touches no stream. -/
theorem CheckEnds.streams {env : Env} {w : World} {u : User} {dir : Dir}
    {replies : MessageQueue} {absolutePath path digest : Bytes} {err : ErrType} {o : Outcome}
    (h : CheckEnds env w u dir replies absolutePath path digest err o) :
    o.world.streams = w.streams := by
  cases h with
  | unreadable => rfl
  | matching => rfl
  | stuck => exact World.remove_streams env _ _
  | mismatch => exact World.remove_streams env _ _

/-- The last chunk of an UPDATE closes the user's stream and touches no other. -/
theorem ReplaceEnds.streams {env : Env} {w : World} {u : User} {dir : Dir}
    {replies : MessageQueue} {absolutePath path digest : Bytes} {o : Outcome}
    (h : ReplaceEnds env u dir replies absolutePath path digest w o) :
    o.world.streams = (closed w u.id).streams := by
  have hremoved : (removed env (closed w u.id) absolutePath).streams = (closed w u.id).streams :=
    World.remove_streams env _ _
  have hrenamed : (renamed env (closed w u.id) absolutePath).streams = (closed w u.id).streams :=
    (World.rename_streams env _ _ _).trans hremoved
  cases h with
  | notRemoved => exact hremoved
  | notRenamed => exact hrenamed
  | replaced _ _ _ hcheck => exact hcheck.streams.trans hrenamed

/-- A write leaves the streams of other users alone. -/
theorem written_streams_of_ne (env : Env) (w : World) (content : Bytes) (flushed : Bool)
    {id id' : Bytes} (hne : id' ≠ id) :
    (written env w id content flushed).streams id' = w.streams id' := by
  unfold written
  split
  · rw [World.flush_streams_of_ne _ _ hne, World.write_streams_of_ne _ _ _ _ hne]
  · exact World.write_streams_of_ne _ _ _ _ hne

/-- A chunk leaves the streams of the other users alone. -/
theorem WriteEnds.streams_of_ne {env : Env} {w : World} {u : User} {dir : Dir} {view : TlvView}
    {replies : MessageQueue} {path digest early : Bytes} {target : Path} {flushed : Bool}
    {failed : ErrType} {Last : World → Outcome → Prop} {o : Outcome} {id : Bytes}
    (h : WriteEnds env w u dir view replies path digest early target flushed failed Last o)
    (hne : id ≠ u.id)
    (hlast : ∀ w o, Last w o → o.world.streams = (closed w u.id).streams) :
    o.world.streams id = w.streams id := by
  have hopened : (opened env w u.id target).streams id = w.streams id :=
    World.getStream_streams_of_ne env w u.id target hne
  cases h with
  | noStream => exact hopened
  | badContent => exact hopened
  | badEnd => exact (written_streams_of_ne env _ _ _ hne).trans hopened
  | stored => exact (written_streams_of_ne env _ _ _ hne).trans hopened
  | last _ content _ _ _ hl =>
      rw [hlast _ _ hl, closed, World.closed_streams_of_ne _ _ hne,
        written_streams_of_ne env _ _ _ hne, hopened]

/-- The loop of ERASE touches no stream. -/
theorem cleanup_streams (env : Env) (dirPath : Path) (fuel : Nat) (w : World) (tmp : Path) :
    (cleanup env dirPath fuel w tmp).streams = w.streams := by
  induction fuel generalizing w tmp with
  | zero => rfl
  | succ fuel ih =>
      have hround := cleanup_round env dirPath fuel w tmp
      generalize cleanup env dirPath (fuel + 1) w tmp = w' at hround ⊢
      have hemptied : (emptied env w tmp).streams = w.streams := World.remove_streams env _ _
      cases hround with
      | atDir => rfl
      | notEmpty => rfl
      | failed => exact hemptied
      | next => exact (ih _ _).trans hemptied

/-- `handle_erase` touches no stream, not even its own user's. -/
theorem eraseEntry_streams (env : Env) (w : World) (u : User) (dir : Dir) (replies : MessageQueue)
    (path : Path) : (eraseEntry env w u dir replies path).world.streams = w.streams := by
  have hremove := World.remove_streams env w (append dir.path path)
  unfold eraseEntry
  dsimp only
  generalize w.remove env (append dir.path path) = r at hremove ⊢
  obtain ⟨w', _ | _⟩ := r
  · exact hremove
  · exact (cleanup_streams env _ _ _ _).trans hremove

/-- A request changes no stream but that of its own user, who is authenticated and synced. -/
theorem handleRequest_streams {env : Env} {w : World} {u : User} {m : Message} {id : Bytes}
    (h : (handleRequest env w u m).world.streams id ≠ w.streams id) :
    id = u.id ∧ u.isAuth = true ∧ u.isSynced = true := by
  rw [handleRequest_eq_perform] at h
  cases htask : taskOf env u m with
  | create dir view replies path digest =>
      obtain ⟨hauth, hsynced, -⟩ := passed_taskOf htask (by simp) (by simp)
      refine ⟨?_, hauth, hsynced⟩
      -- The transfer is the user's, so it touches no stream of another id.
      by_contra hne
      rw [htask] at h
      apply h
      have hends := createTransfer_ends env w u dir view replies path digest
      have hcreated : (created env w dir path).streams id = w.streams id :=
        congrFun (World.createDirectories_streams env w _) id
      rw [perform]
      generalize createTransfer env w u dir view replies path digest = o at hends ⊢
      cases hends with
      | noParent => exact hcreated
      | hasParent _ _ hwrite =>
          exact (hwrite.streams_of_ne hne fun _ _ hcheck => hcheck.streams).trans hcreated
  | update dir view replies path digest oldDigest =>
      obtain ⟨hauth, hsynced, -⟩ := passed_taskOf htask (by simp) (by simp)
      refine ⟨?_, hauth, hsynced⟩
      by_contra hne
      rw [htask] at h
      have hends := updateTransfer_ends env w u dir view replies path digest oldDigest
      exact h (hends.streams_of_ne hne fun _ _ hreplace => hreplace.streams)
  | erase dir replies path =>
      rw [htask] at h
      exact absurd (congrFun (eraseEntry_streams env w u dir replies path) id) h
  | sync replies =>
      rw [htask] at h
      exact absurd (congrFun (handleSync_user env w u replies).2.1 id) h
  | stop | refuse | keepAlive | authenticate =>
      rw [htask] at h
      exact absurd rfl h

/-- A session that is authenticated and synced stays so. -/
theorem synced_sameSession {env : Env} {w : World} {u : User} {m : Message}
    (hauth : u.isAuth = true) (hsynced : u.isSynced = true) :
    SameSession u (handleRequest env w u m).user := by
  refine handleRequest_sameSession (fun username replies htask => ?_) fun replies htask => ?_
  · obtain ⟨hnot, -⟩ := passed_taskOf htask (by simp) (by simp)
    rw [hauth] at hnot
    exact absurd hnot (by simp)
  · obtain ⟨-, hnot, -⟩ := passed_taskOf htask (by simp) (by simp)
    rw [hsynced] at hnot
    exact absurd hnot (by simp)

/-- Every stream belongs to the user of a live session that is authenticated and synced. -/
def StreamsOwned (s : Server) : Prop :=
  ∀ id, s.world.streams id ≠ none →
    ∃ c u, s.sessions c = some u ∧ u.id = id ∧ u.isAuth = true ∧ u.isSynced = true

/-- One event. A stream is opened for a session that is synchronized, and goes with it. -/
theorem streamsOwned_step {env : Env} {s : Server} {e : Event} (h : StreamsOwned s) :
    StreamsOwned (Server.step env s e) := by
  intro id hid
  have hstep := step_ends env s e
  generalize Server.step env s e = s' at hstep hid ⊢
  cases hstep with
  | idle => exact h id hid
  | accepted c a b ip _ hc =>
      -- The new session takes the place of no other.
      obtain ⟨c', u, hu, howner⟩ := h id hid
      have hne : c' ≠ c := by
        rintro rfl
        rw [hc] at hu
        exact absurd hu (by simp)
      exact ⟨c', u, (Function.update_of_ne hne _ _).trans hu, howner⟩
  | served c m u _ hc =>
      -- The session that has made the request, or another one that had the stream before.
      have hself : id = u.id → u.isAuth = true → u.isSynced = true →
          ∃ c' u', (s.serve env c u m).sessions c' = some u' ∧ u'.id = id ∧ u'.isAuth = true ∧
            u'.isSynced = true := by
        intro hidu hauth hsynced
        obtain ⟨dir, huser, -⟩ := @synced_sameSession env s.world u m hauth hsynced
        refine ⟨c, _, Function.update_self _ _ _, ?_⟩
        rw [huser]
        exact ⟨hidu.symm, hauth, hsynced⟩
      by_cases hnone : s.world.streams id = none
      · obtain ⟨hidu, hauth, hsynced⟩ := handleRequest_streams (hnone ▸ hid :
          (handleRequest env s.world u m).world.streams id ≠ s.world.streams id)
        exact hself hidu hauth hsynced
      · obtain ⟨c', u', hu', hid', hauth, hsynced⟩ := h id hnone
        by_cases hcc : c' = c
        · subst hcc
          rw [hc] at hu'
          cases hu'
          exact hself hid'.symm hauth hsynced
        · exact ⟨c', u', (Function.update_of_ne hcc _ _).trans hu', hid', hauth, hsynced⟩
  | shut c u _ hc =>
      -- A shutdown erases its user's stream, so this one is of another user.
      have hne : id ≠ u.id := by
        rintro rfl
        exact hid (World.eraseStream_streams_self _ _)
      rw [World.eraseStream_streams_of_ne _ _ hne] at hid
      obtain ⟨c', u', hu', hid', howner⟩ := h id hid
      have hcc : c' ≠ c := by
        rintro rfl
        rw [hc] at hu'
        cases hu'
        exact hne hid'.symm
      exact ⟨c', u', (Function.update_of_ne hcc _ _).trans hu', hid', howner⟩

/-! ### The view before a SYNC -/

/-- Before its SYNC a session has an empty view, if it has one. -/
def EmptyView (u : User) : Prop :=
  u.isSynced = false → ∀ dir, u.dir = some dir → dir.content = []

/-- A SYNC that the process survives fills the view and sets the flag, or clears the view. -/
theorem handleSync_emptyView {env : Env} {w : World} {u : User} {replies : MessageQueue}
    {r : Reply} (hr : (handleSync env w u replies).result = .ok r) :
    EmptyView (handleSync env w u replies).user := by
  unfold handleSync at hr ⊢
  cases hdir : u.dir with
  | none =>
      simp [User.dirPtr, hdir, attempt, halted] at hr
  | some dir =>
      simp only [User.dirPtr, hdir, attempt] at hr ⊢
      generalize iterate env w dir.path = entries at hr ⊢
      cases entries with
      | none =>
          rintro - dir' hdir'
          rw [← Option.some.inj hdir']
          rfl
      | some entries =>
          dsimp only at hr ⊢
          generalize syncLoop env entries (w.record (.iterate dir.path)) dir replies = r' at hr ⊢
          obtain ⟨w', dir', replies', _ | _ | _ | _⟩ := r'
          · exact fun hsynced => absurd hsynced (by simp [answer])
          -- Both blocks that give up clear the view.
          · rintro - dir' hdir'
            rw [← Option.some.inj hdir']
            rfl
          · rintro - dir' hdir'
            rw [← Option.some.inj hdir']
            rfl
          · cases hr

/-- A request that leaves the session unsynchronized leaves its view empty. -/
theorem handleRequest_emptyView {env : Env} {w : World} {u : User} {m : Message} {r : Reply}
    (h : EmptyView u) (hr : (handleRequest env w u m).result = .ok r) :
    EmptyView (handleRequest env w u m).user := by
  rw [handleRequest_eq_perform] at hr ⊢
  -- Only a synced session is served by the other handlers, and it stays synced.
  have hsynced : u.isAuth = true → u.isSynced = true →
      EmptyView (perform env w u (taskOf env u m)).user := by
    intro hauth hsynced hnot
    obtain ⟨dir, huser, -⟩ := @synced_sameSession env w u m hauth hsynced
    rw [← handleRequest_eq_perform, huser] at hnot
    exact absurd (hsynced.symm.trans hnot) (by simp)
  cases htask : taskOf env u m with
  | stop | refuse | keepAlive => exact h
  | authenticate username replies =>
      rintro - dir hdir
      rw [← Option.some.inj hdir]
      rfl
  | sync replies =>
      rw [htask] at hr
      exact handleSync_emptyView hr
  | create | update | erase =>
      obtain ⟨hauth, hsync, -⟩ := passed_taskOf htask (by simp) (by simp)
      rw [← htask]
      exact hsynced hauth hsync

/-- While the process runs, every session has an empty view before its SYNC. -/
def EmptyViews (s : Server) : Prop :=
  s.halt = none → ∀ c u, s.sessions c = some u → EmptyView u

/-- One event. -/
theorem emptyViews_step {env : Env} {s : Server} {e : Event} (h : EmptyViews s) :
    EmptyViews (Server.step env s e) := by
  intro hhalt c u hc
  have hbefore := halt_of_step hhalt
  rcases step_sessions hc with hc' | ⟨isAuth, isSynced, ip, -, rfl⟩ | ⟨m, u', rfl, -, hc', rfl⟩
  · exact h hbefore c u hc'
  · intro _ dir hdir
    cases hdir
  · rw [step_request m hbefore hc'] at hhalt
    obtain ⟨r, hr⟩ := result_of_serve hhalt
    exact handleRequest_emptyView (h hbefore c u' hc') hr

/-! ### One event -/

/-- What a request needs to leave the view and the disk in agreement. -/
def Fits (env : Env) (w : World) (u : User) (m : Message) : Prop :=
  match taskOf env u m with
  | .create dir _ _ path _ => CreateFits w u.id (userDirectory env u) dir path
  | .update dir _ _ path _ _ => UpdateFits w u.id (userDirectory env u) dir path
  | .erase _ _ path => EraseFits w u.id (userDirectory env u) path
  | _ => True

/-- The path of a request has plain components only. -/
def PlainRequest (m : Message) : Prop := ∀ path digest, Signed m path digest → PlainPath path

/-- A request of a synced session that fits is a run of steps of the catalog. -/
theorem request_steps {env : Env} {w : World} {u : User} {m : Message} {dir : Dir} {r : Reply}
    (hauth : u.isAuth = true) (hsynced : u.isSynced = true) (hdir : u.dir = some dir)
    (hview : PlainView (userDirectory env u) dir)
    (hmirrors : Mirrors env w u.id (userDirectory env u) dir) (hplain : PlainRequest m)
    (hfits : Fits env w u m) (hr : (handleRequest env w u m).result = .ok r) :
    ∃ dir', (handleRequest env w u m).user = { u with dir := some dir' } ∧
      PlainView (userDirectory env u) dir' ∧
      ReflTransGen (CatalogStep env (userDirectory env u))
        (catalogOf w u.id (userDirectory env u) dir)
        (catalogOf (handleRequest env w u m).world u.id (userDirectory env u) dir') := by
  have hd := userDirectory_ne_nil env u
  have hsame : u = { u with dir := some dir } := by rw [← hdir]
  rw [handleRequest_eq_perform] at hr ⊢
  unfold Fits at hfits
  cases htask : taskOf env u m with
  | stop h =>
      rw [htask] at hr
      cases hr
  | refuse => exact ⟨dir, hsame, hview, .refl⟩
  | keepAlive => exact ⟨dir, hsame, hview, .refl⟩
  -- A synced session is not sent to the AUTH and SYNC handlers.
  | authenticate =>
      obtain ⟨hnot, -⟩ := passed_taskOf htask (by simp) (by simp)
      exact absurd (hauth.symm.trans hnot) (by simp)
  | sync =>
      obtain ⟨-, hnot, -⟩ := passed_taskOf htask (by simp) (by simp)
      exact absurd (hsynced.symm.trans hnot) (by simp)
  | create dir' view replies path digest =>
      obtain ⟨-, -, -, hsigned, -, hdir', -⟩ := passed_taskOf htask (by simp) (by simp)
      obtain rfl := Option.some.inj (hdir.symm.trans hdir')
      rw [htask] at hr hfits
      exact createTransfer_steps hd hdir hview (hplain _ _ hsigned) hfits hr
  | update dir' view replies path digest oldDigest =>
      obtain ⟨-, -, -, hsigned, -, hdir', -, rsrc, hrsrc, -⟩ :=
        passed_taskOf htask (by simp) (by simp)
      obtain rfl := Option.some.inj (hdir.symm.trans hdir')
      have hp := hplain _ _ hsigned
      rw [htask] at hr hfits
      exact updateTransfer_steps hd hdir hview hp hmirrors
        (Dir.mem_of_rsrc_eq (hview.keys hp env.hash) hrsrc) hfits hr
  | erase dir' replies path =>
      obtain ⟨-, -, -, hdir', rsrc, hrsrc, hsigned⟩ := passed_taskOf htask (by simp) (by simp)
      obtain rfl := Option.some.inj (hdir.symm.trans hdir')
      have hp := hplain _ _ hsigned
      rw [htask] at hfits
      exact eraseEntry_steps hd hdir hview hp hmirrors
        (Dir.mem_of_rsrc_eq (hview.keys hp env.hash) hrsrc) hfits

/-- No file below the directory `d` changes, and neither does the stream of user `id`. -/
structure Spares (id : Bytes) (d : Loc) (w w' : World) : Prop where
  files : ∀ l i, d <+: l → (w'.disk.node l = some (.file i) ↔ w.disk.node l = some (.file i))
  bytes : ∀ l i, d <+: l → w.disk.node l = some (.file i) →
    w'.disk.content i = w.disk.content i
  streams : w'.streams id = w.streams id

/-- A world spares what it does not change. -/
theorem Spares.refl (id : Bytes) (d : Loc) (w : World) : Spares id d w w :=
  ⟨fun _ _ _ => Iff.rfl, fun _ _ _ _ => rfl, rfl⟩

/-- A view that mirrors the disk still does when the user's directory was spared. -/
theorem Spares.mirrors {env : Env} {id : Bytes} {d : Loc} {w w' : World} {dir : Dir}
    (h : Spares id d w w') (hmirrors : Mirrors env w id d dir) : Mirrors env w' id d dir := by
  refine Catalog.Consistent.write hmirrors (fun _ _ _ => Iff.rfl)
    (fun l i => and_congr_right fun hl => h.files l i hl) ?_ fun l i hi _ => h.bytes l i hi.1 hi.2
  show w'.openOn id = w.openOn id
  rw [World.openOn, World.openOn, h.streams]

/-- The session on connection `c` is the only writer to its user's directory: its paths are
plain, it stays, and the events of the other connections spare the directory. -/
def Alone (env : Env) (c : Nat) (s : Server) : Event → Prop
  | .accept _ _ _ _ => True
  | .request c' m =>
      if c' = c then PlainRequest m
      else ∀ u, s.sessions c = some u →
        Spares u.id (userDirectory env u) s.world (Server.step env s (.request c' m)).world
  | .shutdown c' => c' ≠ c ∧ ∀ u, s.sessions c = some u →
      Spares u.id (userDirectory env u) s.world (Server.step env s (.shutdown c')).world

/-- The requests of connection `c` fit. -/
def FitsOn (env : Env) (c : Nat) (s : Server) : Event → Prop
  | .request c' m => c' = c → ∀ u, s.sessions c = some u → Fits env s.world u m
  | _ => True

/-- The session on connection `c` is synced, and its view mirrors the files. -/
structure Mirrored (env : Env) (s : Server) (c : Nat) (u : User) (dir : Dir) : Prop where
  session : s.sessions c = some u
  auth : u.isAuth = true
  synced : u.isSynced = true
  view : u.dir = some dir
  plain : PlainView (userDirectory env u) dir
  mirrors : Mirrors env s.world u.id (userDirectory env u) dir

/-- An event that is not of connection `c` keeps its session. -/
theorem Mirrored.spared {env : Env} {s s' : Server} {c : Nat} {u : User} {dir : Dir}
    (h : Mirrored env s c u dir) (hsession : s'.sessions c = s.sessions c)
    (hspares : Spares u.id (userDirectory env u) s.world s'.world) : Mirrored env s' c u dir where
  session := hsession.trans h.session
  auth := h.auth
  synced := h.synced
  view := h.view
  plain := h.plain
  mirrors := hspares.mirrors h.mirrors

/-- One request of the session. -/
theorem Mirrored.served {env : Env} {s : Server} {c : Nat} {u : User} {dir : Dir} {m : Message}
    (h : Mirrored env s c u dir) (hplain : PlainRequest m) (hfits : Fits env s.world u m)
    (hhalt : (s.serve env c u m).halt = none) :
    ∃ u' dir', Mirrored env (s.serve env c u m) c u' dir' := by
  obtain ⟨r, hr⟩ := result_of_serve hhalt
  obtain ⟨dir', huser, hview, hsteps⟩ :=
    request_steps h.auth h.synced h.view h.plain h.mirrors hplain hfits hr
  refine ⟨{ u with dir := some dir' }, dir', ?_, h.auth, h.synced, rfl, hview, ?_⟩
  · rw [← huser]
    exact Function.update_self _ _ _
  · exact Catalog.Consistent.steps h.mirrors hsteps

/-- Only its own requests and its shutdown change a live session. -/
theorem step_sessions_of_ne {env : Env} {s : Server} {e : Event} {c : Nat} {u : User}
    (hc : s.sessions c = some u) (hrequest : ∀ m, e ≠ .request c m) (hshut : e ≠ .shutdown c) :
    (Server.step env s e).sessions c = s.sessions c := by
  have hstep := step_ends env s e
  generalize Server.step env s e = s' at hstep ⊢
  cases hstep with
  | idle => rfl
  | accepted c' a b ip _ hc' =>
      refine Function.update_of_ne ?_ _ _
      rintro rfl
      rw [hc] at hc'
      exact absurd hc' (by simp)
  | served c' m u' =>
      refine Function.update_of_ne ?_ _ _
      rintro rfl
      exact hrequest m rfl
  | shut c' u' =>
      refine Function.update_of_ne ?_ _ _
      rintro rfl
      exact hshut rfl

/-- A new connection does not touch the world. -/
theorem step_accept_world (env : Env) (s : Server) (c : Nat) (a b : Bool) (ip : Bytes) :
    (Server.step env s (.accept c a b ip)).world = s.world := by
  have hstep := step_ends env s (.accept c a b ip)
  generalize Server.step env s (.accept c a b ip) = s' at hstep ⊢
  cases hstep with
  | idle => rfl
  | accepted => rfl

/-- One event keeps the view of a session in agreement with the disk. -/
theorem mirrored_step {env : Env} {s : Server} {c : Nat} {e : Event}
    (h : s.halt = none → ∃ u dir, Mirrored env s c u dir) (halone : Alone env c s e)
    (hfits : FitsOn env c s e) :
    (Server.step env s e).halt = none → ∃ u dir, Mirrored env (Server.step env s e) c u dir := by
  intro hhalt
  have hbefore := halt_of_step hhalt
  obtain ⟨u, dir, hm⟩ := h hbefore
  cases e with
  | accept c' a b ip =>
      have hsession := @step_sessions_of_ne env s (.accept c' a b ip) c u hm.session
        (fun m => by simp) (by simp)
      refine ⟨u, dir, hm.spared hsession ?_⟩
      rw [step_accept_world]
      exact .refl _ _ _
  | request c' m =>
      by_cases hc : c' = c
      · subst hc
        rw [step_request m hbefore hm.session] at hhalt ⊢
        rw [Alone, if_pos rfl] at halone
        exact hm.served halone (hfits rfl u hm.session) hhalt
      -- A request of another connection is spared by `Alone`.
      · have hsession := @step_sessions_of_ne env s (.request c' m) c u hm.session
          (fun m' => by simp [hc]) (by simp)
        rw [Alone, if_neg hc] at halone
        exact ⟨u, dir, hm.spared hsession (halone u hm.session)⟩
  | shutdown c' =>
      have hsession := @step_sessions_of_ne env s (.shutdown c') c u hm.session
        (fun m' => by simp) (by simpa using halone.1)
      exact ⟨u, dir, hm.spared hsession (halone.2 u hm.session)⟩

/-- Every run keeps it. -/
theorem mirrored_run {env : Env} {s : Server} {c : Nat} {es : List Event}
    (h : s.halt = none → ∃ u dir, Mirrored env s c u dir)
    (halone : Along (Server.step env) (Alone env c) s es)
    (hfits : Along (Server.step env) (FitsOn env c) s es) :
    (run (Server.step env) s es).halt = none →
      ∃ u dir, Mirrored env (run (Server.step env) s es) c u dir :=
  (@invariant _ _ _ (fun s => s.halt = none → ∃ u dir, Mirrored env s c u dir) _ s es h
    (fun _ _ hs hC => mirrored_step hs hC.1 hC.2) (along_and halone hfits)).1

/-! ### What the user finds on the disk -/

/-- The view of the user mirrors the disk: the file of a synced entry is there and has the
declared digest, and every file below the directory is that of exactly one key, or it is the
temporary file of an UPDATE in progress: the key is not synced, and the user's stream is open
on the file. -/
structure MirrorsDisk (env : Env) (w : World) (u : User) (dir : Dir) : Prop where
  synced : ∀ p digest, (p, ⟨true, digest⟩) ∈ dir.content →
    ∃ bytes, w.disk.read (append dir.path p) = some bytes ∧ md5HashString env (p ++ bytes) = digest
  keyed : ∀ l i, denote dir.path <+: l → w.disk.node l = some (.file i) →
    (∃! p, ∃ r, (p, r) ∈ dir.content ∧ denote (append dir.path p) = l) ∨
    ∃ p digest, (p, ⟨false, digest⟩) ∈ dir.content ∧ denote (tempPath (append dir.path p)) = l ∧
      w.openOn u.id = some i

/-- What is kept along the run says what the user finds on the disk. -/
theorem Mirrored.mirrorsDisk {env : Env} {s : Server} {c : Nat} {u : User} {dir : Dir}
    (h : Mirrored env s c u dir) : MirrorsDisk env s.world u dir := by
  have hd := userDirectory_ne_nil env u
  have hplace : ∀ p, denote (append dir.path p) = place (userDirectory env u) p := by
    intro p
    rw [h.plain.path, place]
  constructor
  case synced =>
    intro p digest hp
    obtain ⟨i, hi, hdigest⟩ := h.mirrors.synced hp
    have hpath := (plain_placed hd (h.plain.plain _ hp)).path
    refine ⟨_, ?_, hdigest⟩
    rw [h.plain.path, hpath]
    exact Disk.read_toPath hi.2
  case keyed =>
    intro l i hl hi
    rw [h.plain.path, denote_toPath] at hl
    simp only [hplace]
    rcases h.mirrors.exactly_one ⟨hl, hi⟩ with ⟨k, ⟨b, x, hk, hkl⟩, hsole⟩ | ⟨k, x, hk, hkl, hopen⟩
    · refine Or.inl ⟨k, ⟨_, hk, hkl⟩, ?_⟩
      rintro k' ⟨r, hk', hkl'⟩
      exact hsole k' ⟨r.synced, r.digest, hk', hkl'⟩
    -- The file is the draft of an upload that is going on.
    · refine Or.inr ⟨k, _, hk, ?_, hopen⟩
      have hpath := (plain_placed hd (h.plain.plain _ hk)).path
      rw [h.plain.path, hpath, hkl, draft]

/-- A state that the server reaches from some tree by some events. -/
def Reached (env : Env) (s : Server) : Prop :=
  ∃ disk es, s = run (Server.step env) (Server.start (World.ofDisk disk)) es

/-- In a state that a server reaches, sessions have their own directories. -/
theorem Reached.ownDirs {env : Env} {s : Server} (h : Reached env s) : OwnDirs env s := by
  obtain ⟨disk, es, rfl⟩ := h
  refine (invariant_always (fun c u hc => ?_) (fun s e hs => ownDirs_step hs) es).1
  cases hc

/-- In a state that a server reaches, streams belong to synchronized sessions. -/
theorem Reached.streamsOwned {env : Env} {s : Server} (h : Reached env s) : StreamsOwned s := by
  obtain ⟨disk, es, rfl⟩ := h
  refine (invariant_always (fun id hid => ?_) (fun s e hs => streamsOwned_step hs) es).1
  exact absurd rfl hid

/-- In a state that a server reaches, sessions that are not synchronized have empty views. -/
theorem Reached.emptyViews {env : Env} {s : Server} (h : Reached env s) : EmptyViews s := by
  obtain ⟨disk, es, rfl⟩ := h
  refine (invariant_always (fun _ c u hc => ?_) (fun s e hs => emptyViews_step hs) es).1
  cases hc

/-- A SYNC on connection `c` is about to be answered OK, and its user has no other session. -/
structure SyncsAlone (env : Env) (s : Server) (c : Nat) (m : Message) : Prop where
  answered : AnswersOk env s c m .sync
  sole : ∀ u c' u', s.sessions c = some u → s.sessions c' = some u' → u'.id = u.id → c' = c

/-- A SYNC that is answered OK leaves a view that mirrors the files. -/
theorem SyncsAlone.mirrored {env : Env} {s : Server} {c : Nat} {m : Message}
    (h : SyncsAlone env s c m) (hs : Reached env s) :
    ∃ u dir, Mirrored env (Server.step env s (.request c m)) c u dir := by
  obtain ⟨hhalt, u, hc, htype, hanswer⟩ := h.answered
  rw [step_request m hhalt hc]
  have hdirectory := userDirectory_ne_nil env u
  have heq := handleRequest_eq_perform env s.world u m
  obtain ⟨replies, htask⟩ :=
    Task.sync_of_msgType (task_of_answered htype hanswer fun herror => absurd herror (by simp))
  obtain ⟨hauth, hsynced, -⟩ := passed_taskOf htask (by simp) (by simp)
  rw [htask, perform] at heq
  rw [heq] at hanswer
  cases hdir : u.dir with
  | none =>
      simp only [handleSync, User.dirPtr, hdir, attempt] at hanswer
      exact absurd hanswer not_answered_halted
  | some dir =>
      obtain ⟨dir', huser, hfresh⟩ := handleSync_fresh hdirectory hdir
        (hs.ownDirs c u hc dir hdir) (hs.emptyViews hhalt c u hc hsynced dir hdir) hanswer
      obtain ⟨hdisk, hsame, -⟩ := handleSync_user env s.world u replies
      -- A stream of the user would belong to a synced session, which this one is not yet.
      have hnone : s.world.streams u.id = none := by
        by_contra hsome
        obtain ⟨c', u', hc', hid, -, hsynced'⟩ := hs.streamsOwned u.id hsome
        obtain rfl := h.sole u c' u' hc hc' hid
        rw [hc] at hc'
        cases hc'
        exact absurd (hsynced.symm.trans hsynced') (by simp)
      obtain ⟨hview, hmirrors⟩ := hfresh.mirrors hdirectory hdisk
        (noStream_openOn ((congrFun hsame u.id).trans hnone))
      refine ⟨{ u with dir := some dir', isSynced := true }, dir', ?_, hauth, rfl, rfl, hview, ?_⟩
      · rw [← huser, ← heq]
        exact Function.update_self _ _ _
      · show Mirrors env (handleRequest env s.world u m).world u.id (userDirectory env u) dir'
        rw [heq]
        exact hmirrors

/-- From a SYNC answered OK on, in every state of every run in which the session is alone with
its directory and its requests fit, the view mirrors the disk. A request that stops the process
ends the run. -/
theorem view_mirrors_disk {env : Env} {s : Server} {c : Nat} {m : Message} {es : List Event}
    (hs : Reached env s) (hsync : SyncsAlone env s c m)
    (halone : Along (Server.step env) (Alone env c) (Server.step env s (.request c m)) es)
    (hfits : Along (Server.step env) (FitsOn env c) (Server.step env s (.request c m)) es)
    (hhalt : (run (Server.step env) s (.request c m :: es)).halt = none) :
    ∃ u dir, (run (Server.step env) s (.request c m :: es)).sessions c = some u ∧
      u.dir = some dir ∧
      MirrorsDisk env (run (Server.step env) s (.request c m :: es)).world u dir := by
  obtain ⟨u, dir, hmirrored⟩ := mirrored_run (fun _ => hsync.mirrored hs) halone hfits hhalt
  exact ⟨u, dir, hmirrored.session, hmirrored.view, hmirrored.mirrorsDisk⟩

/-! ### A client that stores and updates a file -/

/-- A session was accepted at some point of the run. Induction on the run. -/
theorem accepted_of_session {env : Env} {es : List Event} {s : Server} {c : Nat} {u : User}
    (h : (run (Server.step env) s es).sessions c = some u) (hnone : s.sessions c = none) :
    ∃ a b ip, Event.accept c a b ip ∈ es := by
  induction es generalizing s with
  | nil =>
      rw [show s.sessions c = some u from h] at hnone
      exact absurd hnone (by simp)
  | cons e es ih =>
      cases hc : (Server.step env s e).sessions c with
      | none =>
          obtain ⟨a, b, ip, hmem⟩ := ih h hc
          exact ⟨a, b, ip, List.mem_cons_of_mem _ hmem⟩
      | some u' =>
          rcases step_sessions hc with hc' | ⟨a, b, ip, rfl, -⟩ | ⟨m, u'', -, -, hc', -⟩
          · rw [hnone] at hc'
            exact absurd hc' (by simp)
          · exact ⟨a, b, ip, List.mem_cons_self⟩
          · rw [hnone] at hc'
            exact absurd hc' (by simp)

/-- `bobby` has connected, and his AUTH is answered. -/
def bobbyConnected (digests : List (Bytes × List UInt32)) : Server :=
  run (Server.step (bobbyAndBobEnv digests)) (Server.start bobbyWorld)
    [.accept 0 false false (ascii "127.0.0.1"), .request 0 bobbyAuth]

/-- The state behind `bobby`'s login is one that a server reaches. -/
theorem bobbyConnected_reached (digests : List (Bytes × List UInt32)) :
    Reached (bobbyAndBobEnv digests) (bobbyConnected digests) := ⟨_, _, rfl⟩

/-- `bobby` has no other connection. -/
theorem bobbyConnected_sole {digests : List (Bytes × List UInt32)} (u : User) (c : Nat) (u' : User)
    (_ : (bobbyConnected digests).sessions 0 = some u)
    (hc : (bobbyConnected digests).sessions c = some u') (_ : u'.id = u.id) : c = 0 := by
  obtain ⟨a, b, ip, hmem⟩ := accepted_of_session hc rfl
  simp only [List.mem_cons, Event.accept.injEq, List.not_mem_nil, or_false, reduceCtorEq] at hmem
  exact hmem.1

/-- The path of a chunk is the one it was made of. -/
theorem plainRequest_of_signed {m : Message} {path digest : Bytes} (h : Signed m path digest)
    (hpath : PlainPath path) : PlainRequest m := by
  intro path' digest' h'
  rw [← (h.unique h').1]
  exact hpath

/-- `bobby` stores `/a` and has begun to update it. -/
theorem view_mirrors_disk_bobby :
    ∃ u dir, (run (Server.step (bobbyAndBobEnv [ahi])) (bobbyConnected [ahi])
        [.request 0 (bareMessage .sync),
          .request 0 (chunk .create (ascii "/a") (ascii "1D6677F1499CDF9D69169C4083605DE9")
            (ascii "hi") true),
          .request 0 (chunk .update (ascii "/a") (ascii "00") (ascii "ne") false)]).sessions 0 =
        some u ∧ u.dir = some dir ∧
      MirrorsDisk (bobbyAndBobEnv [ahi]) (run (Server.step (bobbyAndBobEnv [ahi]))
        (bobbyConnected [ahi]) [.request 0 (bareMessage .sync),
          .request 0 (chunk .create (ascii "/a") (ascii "1D6677F1499CDF9D69169C4083605DE9")
            (ascii "hi") true),
          .request 0 (chunk .update (ascii "/a") (ascii "00") (ascii "ne") false)]).world
        u dir := by
  have ha : PlainPath (ascii "/a") := ⟨[⟨ascii "a", by decide⟩], by decide, Or.inl (by decide)⟩
  refine view_mirrors_disk (bobbyConnected_reached _) ⟨⟨by decide +kernel,
    { bobby [] with isSynced := false }, by decide +kernel, rfl, by decide +kernel⟩,
    bobbyConnected_sole⟩ ⟨?_, ?_, trivial⟩ ⟨?_, ?_, trivial⟩ (by decide +kernel)
  · exact @plainRequest_of_signed _ _ (ascii "1D6677F1499CDF9D69169C4083605DE9")
      ⟨_, _, rfl, rfl, by decide +kernel⟩ ha
  · exact @plainRequest_of_signed _ _ (ascii "00") ⟨_, _, rfl, rfl, by decide +kernel⟩ ha
  · rintro - u hu
    have hbobby : u = bobby [] := Option.some.inj (hu.symm.trans (by decide +kernel))
    subst hbobby
    exact show CreateFits _ _ _ ⟨bobbyPath, []⟩ (ascii "/a") from
      ⟨Or.inl (by decide +kernel), by simp⟩
  · rintro - u hu
    have hbobby : u = bobby [(ascii "/a", ⟨true, ascii "1D6677F1499CDF9D69169C4083605DE9"⟩)] :=
      Option.some.inj (hu.symm.trans (by decide +kernel))
    subst hbobby
    exact show UpdateFits _ _ _ ⟨bobbyPath, [(ascii "/a",
      ⟨true, ascii "1D6677F1499CDF9D69169C4083605DE9"⟩)]⟩ (ascii "/a") from
      ⟨Or.inl (by decide +kernel), by decide +kernel⟩

/-- The MD5 digests of the files `a` and `a.temp`, both with the content `hi`. -/
def hiTwice : List (Bytes × List UInt32) :=
  [(ascii "ahi", [0xEACD5083, 0xE881F05B, 0x3AE1290C, 0x858D8760]),
    (ascii "a.temphi", [0x82B7EB77, 0x5A1D2749, 0x11F30CBD, 0x4DFD8764])]

/-- `bobby` stores `a` and `a.temp`, and sends an update of `a` with a wrong digest. -/
def bobbyTemp : List Event :=
  [.request 0 (chunk .create (ascii "a") (ascii "EACD5083E881F05B3AE1290C858D8760")
      (ascii "hi") true),
    .request 0 (chunk .create (ascii "a.temp") (ascii "82B7EB775A1D274911F30CBD4DFD8764")
      (ascii "hi") true),
    .request 0 (chunk .update (ascii "a") (ascii "00") (ascii "o") true)]

/-- The update takes the file `a.temp` for its own and removes it, and its entry stays synced. -/
theorem not_view_mirrors_disk :
    (bobbyAndBobEnv hiTwice).NoFaults ∧ Reached (bobbyAndBobEnv hiTwice) (bobbyConnected hiTwice) ∧
      SyncsAlone (bobbyAndBobEnv hiTwice) (bobbyConnected hiTwice) 0 (bareMessage .sync) ∧
      Along (Server.step (bobbyAndBobEnv hiTwice)) (Alone (bobbyAndBobEnv hiTwice) 0)
        (Server.step (bobbyAndBobEnv hiTwice) (bobbyConnected hiTwice)
          (.request 0 (bareMessage .sync))) bobbyTemp ∧
      (run (Server.step (bobbyAndBobEnv hiTwice)) (bobbyConnected hiTwice)
        (.request 0 (bareMessage .sync) :: bobbyTemp)).halt = none ∧
      ¬ ∃ u dir, (run (Server.step (bobbyAndBobEnv hiTwice)) (bobbyConnected hiTwice)
          (.request 0 (bareMessage .sync) :: bobbyTemp)).sessions 0 = some u ∧ u.dir = some dir ∧
        MirrorsDisk (bobbyAndBobEnv hiTwice) (run (Server.step (bobbyAndBobEnv hiTwice))
          (bobbyConnected hiTwice) (.request 0 (bareMessage .sync) :: bobbyTemp)).world u dir := by
  have ha : PlainPath (ascii "a") := ⟨[⟨ascii "a", by decide⟩], by decide, Or.inr (by decide)⟩
  have htemp : PlainPath (ascii "a.temp") :=
    ⟨[⟨ascii "a.temp", by decide⟩], by decide, Or.inr (by decide)⟩
  refine ⟨Env.noFaults_ofTables _ _ _ _, bobbyConnected_reached _, ⟨⟨by decide +kernel,
    { bobby [] with isSynced := false }, by decide +kernel, rfl, by decide +kernel⟩,
    bobbyConnected_sole⟩, ⟨?_, ?_, ?_, trivial⟩, by decide +kernel, ?_⟩
  · exact @plainRequest_of_signed _ _ (ascii "EACD5083E881F05B3AE1290C858D8760")
      ⟨_, _, rfl, rfl, by decide +kernel⟩ ha
  · exact @plainRequest_of_signed _ _ (ascii "82B7EB775A1D274911F30CBD4DFD8764")
      ⟨_, _, rfl, rfl, by decide +kernel⟩ htemp
  · exact @plainRequest_of_signed _ _ (ascii "00") ⟨_, _, rfl, rfl, by decide +kernel⟩ ha
  · rintro ⟨u, dir, hu, hdir, hmirrors⟩
    have hbobby : u = bobby [(ascii "a.temp",
        ⟨true, ascii "82B7EB775A1D274911F30CBD4DFD8764"⟩)] :=
      Option.some.inj (hu.symm.trans (by decide +kernel))
    subst hbobby
    obtain rfl := Option.some.inj hdir
    -- No file is left.
    obtain ⟨bytes, hread, -⟩ := hmirrors.synced (ascii "a.temp") _ List.mem_cons_self
    have hnone : (run (Server.step (bobbyAndBobEnv hiTwice)) (bobbyConnected hiTwice)
        (.request 0 (bareMessage .sync) :: bobbyTemp)).world.disk.read
          (append bobbyPath (ascii "a.temp")) = none := by
      decide +kernel
    exact absurd (hnone.symm.trans hread) (by simp)

end RemoteBackup.Proofs
