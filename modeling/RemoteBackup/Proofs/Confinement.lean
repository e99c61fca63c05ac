import RemoteBackup.Proofs.StoredUpload

/-!
# `RemoteBackup.Proofs.Confinement`: which paths the handlers hand to the file system

A path of a request is appended to the path of the session's directory as text. The
components `.` and `..` are never looked at, and neither is the empty path.

* `cleanup_inside`: the loop of ERASE that removes emptied directories does not leave the
  directory by itself. A directory above it holds it, so it is not empty.
* `cleanup_fuel`: the loop ends by itself.
* `confined_iff`: one request hands over only paths inside the user's directory exactly when
  `StaysInside` holds of it.
* `confinement_iff`: the same along every run, with any number of sessions.
-/

set_option autoImplicit false

namespace RemoteBackup.Proofs

open Lib

/-! ### The user's own directory -/

/-- A hexadecimal digit is no separator, no NUL and no dot. -/
theorem hexDigit_plain {n : Nat} (h : n < 16) :
    hexDigit n ≠ sep ∧ hexDigit n ≠ nul ∧ hexDigit n ≠ dot := by
  revert n
  decide

/-- Nor is any byte of a digest in text. -/
theorem md5ToString_digits (digest : Fin 4 → UInt32) (b : UInt8) (hb : b ∈ md5ToString digest) :
    b ≠ sep ∧ b ≠ nul ∧ b ≠ dot := by
  obtain ⟨i, -, hi⟩ := List.mem_flatMap.mp hb
  obtain ⟨j, -, rfl⟩ := List.mem_map.mp hi
  exact hexDigit_plain (Nat.lt_of_le_of_lt Nat.and_le_right (by decide))

/-- A digest in hexadecimal can name a directory. -/
theorem md5ToString_plain (digest : Fin 4 → UInt32) : Plain (md5ToString digest) := by
  have hdigits := md5ToString_digits digest
  refine ⟨?_, ?_, ?_, fun h => (hdigits _ h).1 rfl, fun h => (hdigits _ h).2.1 rfl⟩
  · simp [md5ToString, hexDigits]
  · intro h
    exact (hdigits dot (by rw [h]; simp)).2.2 rfl
  · intro h
    exact (hdigits dot (by rw [h]; simp)).2.2 rfl

/-- The directory of a user: below the backup root, named by the digest of the user's name. -/
def userDirectory (env : Env) (u : User) : Loc :=
  env.backupRoot ++ [⟨md5HashString env u.username, md5ToString_plain _⟩]

/-- A user's directory is not the root. -/
theorem userDirectory_ne_nil (env : Env) (u : User) : userDirectory env u ≠ [] := by
  simp [userDirectory]

/-- The directory of the user with this name. -/
def homeOf (env : Env) (username : Bytes) : Loc :=
  env.backupRoot ++ [⟨md5HashString env username, md5ToString_plain _⟩]

/-- The directory of a user goes by the user name. -/
theorem userDirectory_eq_homeOf {env : Env} {u : User} {username : Bytes}
    (h : u.username = username) : userDirectory env u = homeOf env username := by
  rw [← h]
  rfl

/-- The view of a session, if it has one, is of the user's own directory. -/
def OwnDir (env : Env) (u : User) : Prop :=
  ∀ dir, u.dir = some dir → dir.path = toPath (userDirectory env u)

/-- A session keeps its own directory while its user name and the path of its view stay. -/
theorem OwnDir.of_map {env : Env} {u u' : User} (h : OwnDir env u)
    (hname : u'.username = u.username) (hdir : u'.dir.map Dir.path = u.dir.map Dir.path) :
    OwnDir env u' := by
  intro dir' hdir'
  rw [hdir', Option.map_some] at hdir
  obtain ⟨dir, hd, hpath⟩ := Option.map_eq_some_iff.mp hdir.symm
  show dir'.path = toPath (env.backupRoot ++ [⟨md5HashString env u'.username, md5ToString_plain _⟩])
  simp only [hname]
  exact hpath.symm.trans (h dir hd)

/-- Every request keeps `OwnDir`. AUTH establishes it. -/
theorem handleRequest_ownDir {env : Env} {w : World} {u : User} {m : Message}
    (h : OwnDir env u) : OwnDir env (handleRequest env w u m).user := by
  by_cases hauth : ∃ username replies, taskOf env u m = .authenticate username replies
  · obtain ⟨username, replies, htask⟩ := hauth
    rw [handleRequest_eq_perform, htask]
    intro dir hdir
    rw [← Option.some.inj hdir]
    exact append_toPath_name env.backupRoot ⟨md5HashString env username, md5ToString_plain _⟩
  · by_cases hsync : ∃ replies, taskOf env u m = .sync replies
    · obtain ⟨replies, htask⟩ := hsync
      rw [handleRequest_eq_perform, htask]
      obtain ⟨-, -, -, dir, synced, huser, hmap, -⟩ := handleSync_user env w u replies
      rw [perform, huser]
      exact h.of_map rfl hmap
    · obtain ⟨dir, huser, hmap⟩ := @handleRequest_sameSession env w u m
        (fun username replies ht => hauth ⟨username, replies, ht⟩)
        (fun replies ht => hsync ⟨replies, ht⟩)
      rw [huser]
      exact h.of_map rfl hmap

/-- Every session looks at its own user's directory. -/
def OwnDirs (env : Env) (s : Server) : Prop := ∀ c u, s.sessions c = some u → OwnDir env u

/-- One event. Only an AUTH gives a session a directory, that of its user. -/
theorem ownDirs_step {env : Env} {s : Server} {e : Event} (h : OwnDirs env s) :
    OwnDirs env (Server.step env s e) := by
  intro c u hc
  rcases step_sessions hc with hc | ⟨isAuth, isSynced, ip, -, rfl⟩ | ⟨m, u', -, -, hc', rfl⟩
  · exact h c u hc
  · intro dir hdir
    cases hdir
  · exact handleRequest_ownDir (h c u' hc')

/-! ### The calls of each handler -/

/-- A call hands over only paths inside `d`. -/
def Inside (d : Loc) (call : FsCall) : Prop := ∀ p ∈ call.handed, d <+: denote p

/-- Whether a call stays inside is read off the paths that it names. -/
instance (d : Loc) (call : FsCall) : Decidable (Inside d call) := by
  unfold Inside
  infer_instance

/-- Later calls that name only paths which the known calls have named do not matter. -/
theorem inside_iff_of_calls {w w' : World} {d : Loc} {new known : List FsCall}
    (hcalls : w'.calls = (new ++ known) ++ w.calls)
    (hnamed : ∀ call ∈ new, ∀ p ∈ call.handed, ∃ call' ∈ known, p ∈ call'.handed) :
    World.CallsSince (Inside d) w w' ↔ ∀ call ∈ known, Inside d call := by
  rw [World.CallsSince.of_calls_append hcalls]
  constructor
  · exact fun h call hcall => h call (List.mem_append_right _ hcall)
  · intro h call hcall p hp
    rcases List.mem_append.mp hcall with hcall | hcall
    · obtain ⟨call', hcall', hp'⟩ := hnamed call hcall p hp
      exact h call' hcall' p hp'
    · exact h call hcall p hp

/-- The digest check opens the file, and removes it or not. -/
theorem CheckEnds.calls {env : Env} {w : World} {u : User} {dir : Dir} {replies : MessageQueue}
    {absolutePath path digest : Bytes} {err : ErrType} {o : Outcome}
    (h : CheckEnds env w u dir replies absolutePath path digest err o) :
    ∃ new, o.world.calls = new ++ w.calls ∧
      ∀ call ∈ new, ∀ p ∈ call.handed, p = absolutePath := by
  have hread : (checked w absolutePath).calls = [.openRead absolutePath] ++ w.calls := rfl
  have hremove : ((checked w absolutePath).remove env absolutePath).1.calls =
      [.remove absolutePath, .openRead absolutePath] ++ w.calls := World.remove_calls env _ _
  cases h with
  | unreadable => exact ⟨_, hread, by simp [FsCall.handed]⟩
  | matching => exact ⟨_, hread, by simp [FsCall.handed]⟩
  | stuck => exact ⟨_, hremove, by simp [FsCall.handed]⟩
  | mismatch => exact ⟨_, hremove, by simp [FsCall.handed]⟩

/-- The block of UPDATE for the last chunk removes the old file first. -/
theorem ReplaceEnds.calls {env : Env} {w : World} {u : User} {dir : Dir} {replies : MessageQueue}
    {absolutePath path digest : Bytes} {o : Outcome}
    (h : ReplaceEnds env u dir replies absolutePath path digest w o) :
    ∃ new, o.world.calls = new ++ .remove absolutePath :: w.calls ∧
      ∀ call ∈ new, ∀ p ∈ call.handed, p = absolutePath ∨ p = tempPath absolutePath := by
  have hremove : (removed env (closed w u.id) absolutePath).calls =
      .remove absolutePath :: w.calls := by
    rw [removed, World.remove_calls, closed, World.closed_calls]
  have hrename : (renamed env (closed w u.id) absolutePath).calls =
      .rename (tempPath absolutePath) absolutePath :: .remove absolutePath :: w.calls := by
    rw [renamed, World.rename_calls, hremove]
  cases h with
  | notRemoved => exact ⟨[], hremove, by simp⟩
  | notRenamed => exact ⟨[_], hrename, by simp [FsCall.handed]⟩
  | replaced _ _ _ hcheck =>
      -- The digest check names the file only, and the rename both.
      obtain ⟨new, hnew, hhanded⟩ := hcheck.calls
      refine ⟨new ++ [.rename (tempPath absolutePath) absolutePath], by simp [hnew, hrename], ?_⟩
      intro call hcall p hp
      rcases List.mem_append.mp hcall with hcall | hcall
      · exact Or.inl (hhanded call hcall p hp)
      · rw [List.mem_singleton.mp hcall] at hp
        simpa [FsCall.handed, or_comm] using hp

/-- A chunk goes on to the block for the last one. -/
def ReachesLast (env : Env) (w : World) (id : Bytes) (view : TlvView) (target : Path) : Prop :=
  (opened env w id target).usable id = true ∧ (∃ content, view.value = .ok content) ∧
    view.verifyEnd = .ok true

/-- The part that both handlers share makes one call, and a last chunk goes on from there. -/
theorem WriteEnds.calls {env : Env} {w : World} {u : User} {dir : Dir} {view : TlvView}
    {replies : MessageQueue} {path digest early : Bytes} {target : Path} {flushed : Bool}
    {failed : ErrType} {Last : World → Outcome → Prop} {o : Outcome}
    (h : WriteEnds env w u dir view replies path digest early target flushed failed Last o) :
    (o.world.calls = .openStream target :: w.calls ∧ ¬ ReachesLast env w u.id view target) ∨
    (ReachesLast env w u.id view target ∧
      ∃ w', w'.calls = .openStream target :: w.calls ∧ Last w' o) := by
  have hopened : (opened env w u.id target).calls = .openStream target :: w.calls :=
    w.getStream_calls env u.id target
  cases h with
  | noStream husable => exact Or.inl ⟨hopened, by simp [ReachesLast, husable]⟩
  | badContent husable e hcontent => exact Or.inl ⟨hopened, by simp [ReachesLast, hcontent]⟩
  | badEnd husable content hcontent e hend =>
      exact Or.inl ⟨(written_calls _ _ _ _ _).trans hopened, by simp [ReachesLast, hend]⟩
  | stored husable content hcontent hend =>
      exact Or.inl ⟨(written_calls _ _ _ _ _).trans hopened, by simp [ReachesLast, hend]⟩
  | last husable content hcontent hend o hlast =>
      exact Or.inr ⟨⟨husable, ⟨content, hcontent⟩, hend⟩, _,
        (written_calls _ _ _ _ _).trans hopened, hlast⟩

/-- When a CREATE hands over only paths inside `d`. -/
def CreateInside (env : Env) (w : World) (d : Loc) (absolutePath : Path) : Prop :=
  d <+: denote (parentPath absolutePath) ∧
    ((w.createDirectories env (parentPath absolutePath)).2 = true → d <+: denote absolutePath)

/-- When a CREATE stays inside of a directory. -/
theorem createTransfer_inside_iff {env : Env} {w : World} {u : User} {dir : Dir} {view : TlvView}
    {replies : MessageQueue} {path digest : Bytes} {d : Loc} :
    World.CallsSince (Inside d) w
        (createTransfer env w u dir view replies path digest).world ↔
      CreateInside env w d (append dir.path path) := by
  have hends := createTransfer_ends env w u dir view replies path digest
  generalize createTransfer env w u dir view replies path digest = o at hends ⊢
  unfold CreateInside
  cases hends with
  | noParent hparent =>
      have hcalls : (created env w dir path).calls =
          .createDirectories (parentPath (append dir.path path)) :: w.calls :=
        w.createDirectories_calls env _
      simp only [hparent, Bool.false_eq_true, false_implies, and_true]
      show World.CallsSince (Inside d) w (created env w dir path) ↔ _
      rw [World.CallsSince.of_calls_cons hcalls]
      simp [Inside, FsCall.handed]
  | hasParent hparent o hwrite =>
      -- The digest check names no path that the open did not name.
      obtain ⟨new, hcalls, hhanded⟩ : ∃ new, o.world.calls = (new ++
          [.openStream (append dir.path path),
            .createDirectories (parentPath (append dir.path path))]) ++ w.calls ∧
          ∀ call ∈ new, ∀ p ∈ call.handed, p = append dir.path path := by
        have hcreated := w.createDirectories_calls env (parentPath (append dir.path path))
        rcases hwrite.calls with ⟨hcalls, -⟩ | ⟨-, w', hcalls, hcheck⟩
        · exact ⟨[], by rw [hcalls, created, hcreated]; rfl, by simp⟩
        · obtain ⟨new, hnew, hhanded⟩ := hcheck.calls
          refine ⟨new, ?_, hhanded⟩
          rw [hnew, closed, World.closed_calls, hcalls, created, hcreated, List.append_assoc]
          rfl
      rw [inside_iff_of_calls hcalls fun call hcall p hp =>
        ⟨.openStream (append dir.path path), by simp,
          by simp [FsCall.handed, hhanded call hcall p hp]⟩]
      simp [Inside, FsCall.handed, hparent, and_comm]

/-- When an UPDATE hands over only paths inside `d`. -/
def UpdateInside (env : Env) (w : World) (id : Bytes) (view : TlvView) (d : Loc)
    (absolutePath : Path) : Prop :=
  d <+: denote (tempPath absolutePath) ∧
    (ReachesLast env w id view (tempPath absolutePath) → d <+: denote absolutePath)

/-- When an UPDATE stays inside of a directory. -/
theorem updateTransfer_inside_iff {env : Env} {w : World} {u : User} {dir : Dir} {view : TlvView}
    {replies : MessageQueue} {path digest oldDigest : Bytes} {d : Loc} :
    World.CallsSince (Inside d) w
        (updateTransfer env w u dir view replies path digest oldDigest).world ↔
      UpdateInside env w u.id view d (append dir.path path) := by
  have hends := updateTransfer_ends env w u dir view replies path digest oldDigest
  generalize updateTransfer env w u dir view replies path digest oldDigest = o at hends ⊢
  unfold UpdateInside
  rcases hends.calls with ⟨hcalls, hnot⟩ | ⟨hlast, w', hcalls, hreplace⟩
  · simp only [hnot, false_implies, and_true]
    rw [World.CallsSince.of_calls_cons hcalls]
    simp [Inside, FsCall.handed]
  · obtain ⟨new, hnew, hhanded⟩ := hreplace.calls
    have hall : o.world.calls = (new ++ [.remove (append dir.path path),
        .openStream (tempPath (append dir.path path))]) ++ w.calls := by
      rw [hnew, hcalls, List.append_assoc]
      rfl
    -- The first two calls have named both paths.
    rw [inside_iff_of_calls hall]
    · simp [Inside, FsCall.handed, hlast, and_comm]
    · intro call hcall p hp
      rcases hhanded call hcall p hp with rfl | rfl
      · exact ⟨.remove (append dir.path path), by simp, by simp [FsCall.handed]⟩
      · exact ⟨.openStream (tempPath (append dir.path path)), by simp, by simp [FsCall.handed]⟩

/-! ### The loop of ERASE -/

/-- Where a step leads is inside `d` only from a place inside `d` or above it. -/
theorem comparable_of_step {d l : Loc} {s : Step} (h : d <+: s.apply l) : d <+: l ∨ l <+: d := by
  cases s with
  | stay => exact Or.inl h
  | up => exact Or.inl (h.trans (List.dropLast_prefix l))
  | down n =>
      rcases List.prefix_concat_iff.mp h with heq | h
      · exact Or.inr (heq ▸ List.prefix_append l [n])
      · exact Or.inl h

/-- The parent of a text below a location denotes a place inside `d` or above it when the
text does. -/
theorem parentPath_comparable {l : Loc} (hl : l ≠ []) {r : Path} (hr : r.head? = some sep)
    (h : l <+: denote (toPath l ++ r)) :
    ∃ r', parentPath (toPath l ++ r) = toPath l ++ r' ∧ (r' = [] ∨ r'.head? = some sep) ∧
      (l <+: denote (toPath l ++ r') ∨ denote (toPath l ++ r') <+: l) := by
  obtain ⟨r', hparent, hhead, -, hsteps⟩ := parentPath_toPath_append hl hr
  refine ⟨r', hparent, hhead, ?_⟩
  rcases hsteps with heq | ⟨s, hs⟩
  · left
    rwa [denote, ← heq]
  · rw [denote, hs, List.foldl_append] at h
    exact comparable_of_step h

/-- The world after a round of the loop has looked at `tmp` and removed it, if it could. -/
def emptied (env : Env) (w : World) (tmp : Path) : World :=
  ((w.record (.isEmpty tmp)).remove env tmp).1

/-- A round of the loop makes two calls. -/
theorem emptied_calls (env : Env) (w : World) (tmp : Path) :
    (emptied env w tmp).calls = .remove tmp :: .isEmpty tmp :: w.calls :=
  World.remove_calls env _ _

/-- One round of the loop: it stands at the user's directory, `tmp` is not an empty directory,
or `tmp` is removed, and the loop goes on when that succeeds. -/
inductive CleanupRound (env : Env) (dirPath : Path) (fuel : Nat) (w : World) (tmp : Path) :
    World → Prop
  | atDir (hat : elements tmp = elements dirPath) : CleanupRound env dirPath fuel w tmp w
  | notEmpty (hat : elements tmp ≠ elements dirPath) (hempty : (w.isEmpty env tmp).2 ≠ some true) :
      CleanupRound env dirPath fuel w tmp (w.record (.isEmpty tmp))
  | failed (hat : elements tmp ≠ elements dirPath) (hempty : (w.isEmpty env tmp).2 = some true) :
      CleanupRound env dirPath fuel w tmp (emptied env w tmp)
  | next (hat : elements tmp ≠ elements dirPath) (hempty : (w.isEmpty env tmp).2 = some true) :
      CleanupRound env dirPath fuel w tmp
        (cleanup env dirPath fuel (emptied env w tmp) (parentPath tmp))

/-- A round of the loop, in all its ends. -/
theorem cleanup_round (env : Env) (dirPath : Path) (fuel : Nat) (w : World) (tmp : Path) :
    CleanupRound env dirPath fuel w tmp (cleanup env dirPath (fuel + 1) w tmp) := by
  simp only [cleanup]
  split
  · exact .atDir ‹_›
  rename_i hat
  have hlooked : (w.isEmpty env tmp).1 = w.record (.isEmpty tmp) := rfl
  generalize hround : w.isEmpty env tmp = round at hlooked
  obtain ⟨w', answer⟩ := round
  obtain rfl := hlooked
  have hanswer : (w.isEmpty env tmp).2 = answer := by rw [hround]
  -- An error code and a directory with entries both end the loop.
  rcases answer with _ | _ | _
  · exact .notEmpty hat (by rw [hanswer]; simp)
  · exact .notEmpty hat (by rw [hanswer]; simp)
  · dsimp only
    cases hremove : ((w.record (.isEmpty tmp)).remove env tmp).2 with
    | true =>
        rw [eq_of_snd hremove]
        exact .next hat hanswer
    | false =>
        rw [eq_of_snd hremove]
        exact .failed hat hanswer

/-- The loop adds to the calls that were made before it. -/
theorem cleanup_calls (env : Env) (dirPath : Path) (fuel : Nat) (w : World) (tmp : Path) :
    w.calls <:+ (cleanup env dirPath fuel w tmp).calls := by
  induction fuel generalizing w tmp with
  | zero => exact List.suffix_refl _
  | succ fuel ih =>
      have hemptied : w.calls <:+ (emptied env w tmp).calls := by
        rw [emptied_calls]
        exact ⟨[_, _], rfl⟩
      have hround := cleanup_round env dirPath fuel w tmp
      generalize cleanup env dirPath (fuel + 1) w tmp = w' at hround ⊢
      cases hround with
      | atDir => exact List.suffix_refl _
      | notEmpty => exact List.suffix_cons _ _
      | failed => exact hemptied
      | next => exact hemptied.trans (ih _ _)

/-- The loop stays inside the user's directory when it starts there, or above it. A directory
above holds the user's, so the loop stops at it. Induction on the rounds. -/
theorem cleanup_inside {env : Env} {l : Loc} (hl : l ≠ []) (fuel : Nat) {w : World} {r : Path}
    (hr : r = [] ∨ r.head? = some sep)
    (h : l <+: denote (toPath l ++ r) ∨ denote (toPath l ++ r) <+: l) :
    World.CallsSince (Inside l) w (cleanup env (toPath l) fuel w (toPath l ++ r)) := by
  induction fuel generalizing w r with
  | zero => exact .of_calls_eq rfl
  | succ fuel ih =>
      have hround := cleanup_round env (toPath l) fuel w (toPath l ++ r)
      generalize cleanup env (toPath l) (fuel + 1) w (toPath l ++ r) = w' at hround ⊢
      -- Where a round removes something, it removes it inside.
      have hinside : (w.isEmpty env (toPath l ++ r)).2 = some true →
          l <+: denote (toPath l ++ r) := by
        intro hempty
        rcases h with h | h
        · exact h
        · have hdisk : w.disk.isEmpty (toPath l ++ r) = some true := by
            simp only [World.isEmpty] at hempty
            split at hempty
            · exact absurd hempty (by simp)
            · exact hempty
          rw [Disk.isEmpty_below hl hr hdisk h]
      have hremoved : (w.isEmpty env (toPath l ++ r)).2 = some true →
          World.CallsSince (Inside l) w (emptied env w (toPath l ++ r)) := by
        intro hempty
        rw [@World.CallsSince.of_calls_append _ w _ [_, _] (emptied_calls env w _)]
        have hin := hinside hempty
        simpa [Inside, FsCall.handed] using hin
      cases hround with
      | atDir => exact .of_calls_eq rfl
      | notEmpty =>
          rw [World.CallsSince.of_calls_cons (World.record_calls w _)]
          simp [Inside, FsCall.handed]
      | failed _ hempty => exact hremoved hempty
      | next hat hempty =>
          -- At the directory itself the loop has stopped, so `tmp` is below it.
          have hhead : r.head? = some sep := by
            rcases hr with rfl | hhead
            · exact absurd (by rw [List.append_nil]) hat
            · exact hhead
          obtain ⟨r', hparent, hr', hcomparable⟩ := parentPath_comparable hl hhead (hinside hempty)
          rw [hparent]
          exact (hremoved hempty).trans (ih hr' hcomparable)

/-- The empty path names nothing. -/
theorem isEmpty_nil (env : Env) (w : World) : (w.isEmpty env []).2 = none := ite_self _

/-- The loop ends by itself: beyond the length of its path the number of rounds does not
matter. Induction on the rounds. -/
theorem cleanup_fuel (env : Env) (dirPath : Path) {fuel fuel' : Nat} {w : World} {tmp : Path}
    (hfuel : tmp.length < fuel) (hfuel' : tmp.length < fuel') :
    cleanup env dirPath fuel w tmp = cleanup env dirPath fuel' w tmp := by
  induction fuel generalizing fuel' w tmp with
  | zero => omega
  | succ fuel ih =>
      obtain ⟨fuel', rfl⟩ : ∃ n, fuel' = n + 1 := ⟨fuel' - 1, by omega⟩
      simp only [cleanup]
      by_cases htmp : tmp = []
      · rw [htmp, eq_of_snd (isEmpty_nil env w)]
      · have hshort := parentPath_length_lt htmp
        congr 1
        rcases w.isEmpty env tmp with ⟨w', _ | _ | _⟩
        · rfl
        · rfl
        · dsimp only
          rcases w'.remove env tmp with ⟨w'', _ | _⟩
          · rfl
          · exact ih (by omega) (by omega)

/-! ### ERASE -/

/-- When an ERASE hands over only paths inside `d`. The empty path names the directory itself,
and then the loop starts above it. -/
def EraseInside (env : Env) (w : World) (d : Loc) (path : Path) : Prop :=
  d <+: denote (append (toPath d) path) ∧
    (path = [] → (w.remove env (toPath d)).2 = true →
      ((removed env w (toPath d)).isEmpty env (parentPath (toPath d))).2 ≠ some true)

/-- What `append` puts behind a path begins with a separator. -/
theorem below_head_of_ne_nil {p : Path} (hp : p ≠ []) : (below p).head? = some sep := by
  rcases below_head p with h | h
  · unfold below at h
    rw [if_neg hp] at h
    split at h
    · exact absurd h hp
    · exact absurd h (by simp)
  · exact h

/-- The loop of an ERASE whose path is not empty stays inside when the path does. -/
theorem cleanup_erase_inside {env : Env} {d : Loc} (hd : d ≠ []) {path : Path} (hpath : path ≠ [])
    (h : d <+: denote (append (toPath d) path)) (fuel : Nat) (w : World) :
    World.CallsSince (Inside d) w
      (cleanup env (toPath d) fuel w (parentPath (append (toPath d) path))) := by
  rw [append_toPath hd] at h ⊢
  obtain ⟨r, hparent, hr, hcomparable⟩ := parentPath_comparable hd (below_head_of_ne_nil hpath) h
  rw [hparent]
  exact cleanup_inside hd fuel hr hcomparable

/-- The loop of an ERASE of the empty path starts above the user's directory. It stays inside
only when it stops at once. -/
theorem cleanup_above_iff {env : Env} {l : Loc} {n : Name} (fuel : Nat) (w : World) :
    World.CallsSince (Inside (l ++ [n])) w
        (cleanup env (toPath (l ++ [n])) (fuel + 1) w (toPath l)) ↔
      (w.isEmpty env (toPath l)).2 ≠ some true := by
  have helements : elements (toPath l) ≠ elements (toPath (l ++ [n])) := by
    intro h
    rw [elements_toPath, elements_toPath] at h
    simpa using congrArg List.length h
  have hround := cleanup_round env (toPath (l ++ [n])) fuel w (toPath l)
  -- A round that removes the place above hands it over.
  have hescapes : ∀ w' : World, (emptied env w (toPath l)).calls <:+ w'.calls →
      ¬ World.CallsSince (Inside (l ++ [n])) w w' := by
    intro w' hsuffix h
    have hcalls := emptied_calls env w (toPath l)
    have hfirst := ((World.CallsSince.trans_iff ⟨[_, _], hcalls.symm⟩ hsuffix).mp h).1
    rw [@World.CallsSince.of_calls_append _ w _ [_, _] hcalls] at hfirst
    have hprefix := hfirst (.remove (toPath l)) (by simp) (toPath l) (by simp [FsCall.handed])
    rw [denote_toPath] at hprefix
    simpa using hprefix.length_le
  generalize cleanup env (toPath (l ++ [n])) (fuel + 1) w (toPath l) = w' at hround ⊢
  cases hround with
  | atDir hat => exact absurd hat helements
  | notEmpty _ hempty =>
      simp only [hempty, ne_eq, not_false_iff, iff_true]
      rw [World.CallsSince.of_calls_cons (World.record_calls w _)]
      simp [Inside, FsCall.handed]
  | failed _ hempty =>
      simp only [hempty, ne_eq, not_true_eq_false, iff_false]
      exact hescapes _ (List.suffix_refl _)
  | next _ hempty =>
      simp only [hempty, ne_eq, not_true_eq_false, iff_false]
      exact hescapes _ (cleanup_calls _ _ _ _ _)

/-- When an ERASE stays inside of the user's directory. -/
theorem eraseEntry_inside_iff {env : Env} {w : World} {u : User} {dir : Dir}
    {replies : MessageQueue} {path : Path} {l : Loc} {n : Name}
    (hdir : dir.path = toPath (l ++ [n])) :
    World.CallsSince (Inside (l ++ [n])) w (eraseEntry env w u dir replies path).world ↔
      EraseInside env w (l ++ [n]) path := by
  have hne : l ++ [n] ≠ [] := by simp
  have hcalls : (removed env w (append (toPath (l ++ [n])) path)).calls =
      .remove (append (toPath (l ++ [n])) path) :: w.calls := World.remove_calls env w _
  have hinside : Inside (l ++ [n]) (.remove (append (toPath (l ++ [n])) path)) ↔
      l ++ [n] <+: denote (append (toPath (l ++ [n])) path) := by
    simp [Inside, FsCall.handed]
  unfold eraseEntry EraseInside
  rw [hdir]
  dsimp only
  cases hremove : (w.remove env (append (toPath (l ++ [n])) path)).2 with
  | false =>
      rw [eq_of_snd hremove, ← removed]
      show World.CallsSince _ w (removed env w _) ↔ _
      rw [World.CallsSince.of_calls_cons hcalls, hinside]
      refine ⟨fun h => ⟨h, ?_⟩, fun h => h.1⟩
      rintro rfl htrue
      exact absurd (hremove.symm.trans htrue) (by simp)
  | true =>
      rw [eq_of_snd hremove, ← removed]
      have hfirst : World.CallsSince (Inside (l ++ [n])) w
          (removed env w (append (toPath (l ++ [n])) path)) ↔
          l ++ [n] <+: denote (append (toPath (l ++ [n])) path) := by
        rw [World.CallsSince.of_calls_cons hcalls, hinside]
      generalize (parentPath (append (toPath (l ++ [n])) path)).length = fuel
      show World.CallsSince _ w (cleanup env _ (fuel + 1) (removed env w _) _) ↔ _
      rw [World.CallsSince.trans_iff ⟨[_], hcalls.symm⟩ (cleanup_calls _ _ _ _ _), hfirst]
      refine and_congr_right fun hin => ?_
      by_cases hpath : path = []
      · -- The directory itself is gone, and the loop starts above it.
        subst hpath
        have hself : append (toPath (l ++ [n])) [] = toPath (l ++ [n]) := rfl
        simp only [hself, parentPath_toPath] at hremove ⊢
        simp only [hremove, true_implies]
        exact cleanup_above_iff fuel _
      · simp only [hpath, false_implies, iff_true]
        exact cleanup_erase_inside hne hpath hin _ _

/-! ### One request -/

/-- Every path that the handlers hand over for the request is inside the user's directory. -/
def Confined (env : Env) (w : World) (u : User) (m : Message) : Prop :=
  World.CallsSince (Inside (userDirectory env u)) w (handleRequest env w u m).world

/-- The paths that the request leads to stay inside the user's directory. -/
def StaysInside (env : Env) (w : World) (u : User) (m : Message) : Prop :=
  match taskOf env u m with
  | .create dir _ _ path _ =>
      CreateInside env w (userDirectory env u) (append dir.path path)
  | .update dir view _ path _ _ =>
      UpdateInside env w u.id view (userDirectory env u) (append dir.path path)
  | .erase _ _ path => EraseInside env w (userDirectory env u) path
  | _ => True

/-- When a request stays inside of the user's directory: one case for each task. -/
theorem confined_iff {env : Env} {w : World} {u : User} {m : Message} (h : OwnDir env u) :
    Confined env w u m ↔ StaysInside env w u m := by
  unfold Confined StaysInside
  rw [handleRequest_eq_perform]
  cases htask : taskOf env u m with
  | stop e => exact iff_true_intro (.of_calls_eq rfl)
  | refuse replies err => exact iff_true_intro (.of_calls_eq rfl)
  | keepAlive replies => exact iff_true_intro (.of_calls_eq rfl)
  | authenticate username replies => exact iff_true_intro (.of_calls_eq rfl)
  | sync replies =>
      obtain ⟨-, -, ⟨new, hnew, hreads⟩, -⟩ := handleSync_user env w u replies
      refine iff_true_intro ⟨new, hnew, fun call hcall p hp => ?_⟩
      rw [hreads call hcall] at hp
      exact absurd hp (by simp)
  | create dir view replies path digest => exact createTransfer_inside_iff
  | update dir view replies path digest oldDigest => exact updateTransfer_inside_iff
  | erase dir replies path =>
      obtain ⟨-, -, -, hdir, -⟩ := passed_taskOf htask (by simp) (by simp)
      exact eraseEntry_inside_iff (h dir hdir)

/-! ### Runs of the server -/

/-- In every run of a server, from any tree and with any number of sessions, the handlers hand
over only paths inside the directory of the user they serve exactly when every request stays
inside. -/
theorem confinement_iff (env : Env) (w : World) (es : List Event) :
    Along (Server.step env) (OnRequest (Confined env)) (Server.start w) es ↔
      Along (Server.step env) (OnRequest (StaysInside env)) (Server.start w) es := by
  have hstart : OwnDirs env (Server.start w) := fun c u hc => absurd hc (by simp [Server.start])
  have halong : Along (Server.step env) (fun s _ => OwnDirs env s) (Server.start w) es :=
    (invariant_always hstart (fun s e h => ownDirs_step h) es).2
  refine along_congr halong fun s e hs => ?_
  cases e with
  | request c m =>
      exact forall_congr' fun u => imp_congr_right fun _ => forall_congr' fun hc =>
        confined_iff (hs c u hc)
  | accept => exact Iff.rfl
  | shutdown => exact Iff.rfl

/-- `bobby` sends a CREATE of `../x`. The parent directory that the handler makes is the backup
root. -/
theorem not_confined_dotdot :
    ¬ Along (Server.step (bobbyAndBobEnv [])) (OnRequest (Confined (bobbyAndBobEnv [])))
      (Server.start bobbyWorld)
      (bobbyLogin ++
        [.request 0 (chunk .create (ascii "../x") (ascii "00") (ascii "hi") false)]) := by
  intro h
  have hconfined : Confined _ _ (bobby []) _ :=
    onRequest_of_along h (by decide +kernel) (by decide +kernel)
  have hcalls := (@World.CallsSince.of_calls_append _ _ _
    [.openStream (ascii "/backup/F5CEC4A9E67057735BC2B7577B80CB9D/../x"),
      .createDirectories (ascii "/backup/F5CEC4A9E67057735BC2B7577B80CB9D/..")]
    (by decide +kernel)).mp hconfined
  exact absurd (hcalls _ (List.mem_cons_of_mem _ List.mem_cons_self)) (by decide +kernel)

end RemoteBackup.Proofs
