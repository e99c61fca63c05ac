import RemoteBackup.Lib.Faults
import RemoteBackup.Proofs.Acknowledged
import RemoteBackup.Proofs.FailedUpdate

/-!
# `RemoteBackup.Proofs.SyncListing`: what a SYNC lists, and what it leaves when it fails

`handle_sync` walks the user's directory once. The calls of the walk follow from the tree
(`walkCalls`), and so does how it ends: no insertion finds its key taken, because different
places below the directory have different keys.

* `syncLoop_ends`: the walk reaches the last entry, or stops at the first call that fails.
* `sync_lists_tree`: when no call fails, the view and the reply list exactly the files of the
  tree.
* `failed_sync_clean_iff`: when one fails, the view is empty again and the reply has no ITEM,
  unless the call was to open a file for its digest.
-/

set_option autoImplicit false

namespace RemoteBackup.Proofs

open Lib

/-! ### The calls of a walk -/

/-- The calls that the walk makes on an entry before it advances. -/
def entryCalls (disk : Disk) (p : Path) : List FsCall :=
  .isRegularFile p :: match disk.status p with
    | some (.file _) => [.openRead p]
    | _ => []

/-- The calls of a walk over these entries that no fault stops. -/
def walkCalls (disk : Disk) : List Path → List FsCall
  | [] => []
  | p :: ps => entryCalls disk p ++ .advance p :: walkCalls disk ps

/-- What a call throws that fails. Only the hash of a file throws no `filesystem_error`. -/
def thrownBy : FsCall → Thrown
  | .openRead _ => .otherException
  | _ => .filesystemError

/-- How a part of the walk ends that makes these calls. -/
inductive EndsBy (env : Env) (history calls : List FsCall) : SyncEnd → Prop
  | clear : Faultless env.fails history calls → EndsBy env history calls .done
  | fault {c : FsCall} : FirstFault env.fails c history calls →
      EndsBy env history calls (.thrown (thrownBy c))

/-- The calls on an entry that is not a file. -/
theorem endsBy_singleton {env : Env} {history : List FsCall} {c : FsCall} {ends : SyncEnd}
    (h : EndsBy env history [c] ends) :
    ends = if env.fails history c then .thrown (thrownBy c) else .done := by
  cases h with
  | clear hclear => simp [hclear.1]
  | fault hfault =>
      rcases hfault with ⟨hfails, rfl⟩ | ⟨-, hnil⟩
      · simp [hfails]
      · exact hnil.elim

/-- The calls on an entry that is a file. -/
theorem endsBy_pair {env : Env} {history : List FsCall} {c c' : FsCall} {ends : SyncEnd}
    (h : EndsBy env history [c, c'] ends) :
    ends = if env.fails history c then .thrown (thrownBy c)
      else if env.fails (c :: history) c' then .thrown (thrownBy c') else .done := by
  cases h with
  | clear hclear => simp [hclear.1, hclear.2.1]
  | fault hfault =>
      rcases hfault with ⟨hfails, rfl⟩ | ⟨hclear, hrest⟩
      · simp [hfails]
      · rcases hrest with ⟨hfails, rfl⟩ | ⟨-, hnil⟩
        · simp [hclear, hfails]
        · exact hnil.elim

/-- An entry whose key is not in the view yet makes its calls, and stops the walk only when one
of them fails. -/
theorem syncEntry_ends {env : Env} {w : World} {dir : Dir} {d l : Loc} (hd : d ≠ [])
    (hdir : dir.path = toPath d) (hl : d <+: l) (hne : l ≠ d)
    (hnew : ∀ e ∈ dir.content, ¬ sameKey env.hash e.1 (toPath (l.drop d.length)))
    (q : MessageQueue) {ends : SyncEnd}
    (h : EndsBy env w.calls (entryCalls w.disk (toPath l)) ends) :
    ∃ w' dir' q', syncEntry env w dir q (toPath l) = (w', dir', q', ends) ∧
      (ends = .done → w'.calls = (entryCalls w.disk (toPath l)).reverse ++ w.calls) := by
  have hrelative : (toPath l).drop dir.path.length = toPath (l.drop d.length) := by
    rw [hdir, ← (toPath_below hd hl hne).1, List.drop_left]
  unfold entryCalls at h ⊢
  unfold syncEntry
  simp only [World.record_disk, hrelative]
  rw [Disk.status_toPath] at h ⊢
  -- Only a file is hashed. Of everything else the walk asks the kind and goes on.
  rcases hnode : w.disk.node l with _ | _ | i
  · rw [hnode] at h
    obtain rfl := endsBy_singleton h
    split
    · exact ⟨_, _, _, rfl, fun hdone => absurd hdone (by simp)⟩
    · exact ⟨_, _, _, rfl, fun _ => rfl⟩
  · rw [hnode] at h
    obtain rfl := endsBy_singleton h
    split
    · exact ⟨_, _, _, rfl, fun hdone => absurd hdone (by simp)⟩
    · exact ⟨_, _, _, rfl, fun _ => rfl⟩
  · rw [hnode] at h
    obtain rfl := endsBy_pair h
    split
    · exact ⟨_, _, _, rfl, fun hdone => absurd hdone (by simp)⟩
    · have hread := @World.md5Hash_of_read env (w.record (.isRegularFile (toPath l))) (toPath l)
        (toPath (l.drop d.length)) _ (Disk.read_toPath hnode)
      have hfree : dir.contains env.hash (toPath (l.drop d.length)) = false := by
        simpa [Dir.contains] using hnew
      dsimp only
      rw [eq_of_snd hread, World.record_calls]
      rcases env.fails (.isRegularFile (toPath l) :: w.calls) (.openRead (toPath l)) with _ | _
      · simp only [Bool.false_eq_true, if_false, Dir.insertOrAssign, hfree]
        exact ⟨_, _, _, rfl, fun _ => rfl⟩
      · exact ⟨_, _, _, rfl, fun hdone => absurd hdone (by simp)⟩

/-- Different places below a directory have different keys. -/
theorem eq_of_key {d l k : Loc} (hl : d <+: l) (hk : d <+: k)
    (h : elements (toPath (k.drop d.length)) = elements (toPath (l.drop d.length))) : k = l := by
  rw [elements_toPath, elements_toPath, List.cons.injEq] at h
  have hdrop : k.drop d.length = l.drop d.length :=
    List.map_injective_iff.mpr Subtype.val_injective h.2
  rw [← List.prefix_iff_eq_append.mp hk, ← List.prefix_iff_eq_append.mp hl, hdrop]

/-- The iterator meets each place once. -/
theorem nodup_visit (env : Env) (disk : Disk) (d : Loc) :
    (env.visit (disk.entriesBelow d)).Nodup :=
  (env.visit_perm _).nodup_iff.mpr ((List.nodup_dedup _).filter _)

/-- What the calls of a walk come to: those of its first entry, the step behind it, and those of
the other entries. -/
theorem EndsBy.cons {env : Env} {disk : Disk} {history : List FsCall} {p : Path} {ps : List Path}
    {ends : SyncEnd} (h : EndsBy env history (walkCalls disk (p :: ps)) ends) :
    (ends ≠ .done ∧ EndsBy env history (entryCalls disk p) ends) ∨
      (EndsBy env history (entryCalls disk p) .done ∧
        if env.fails ((entryCalls disk p).reverse ++ history) (.advance p) then
          ends = .thrown .filesystemError
        else EndsBy env (.advance p :: ((entryCalls disk p).reverse ++ history))
          (walkCalls disk ps) ends) := by
  cases h with
  | clear hclear =>
      obtain ⟨hentry, hadvance, hrest⟩ := faultless_append.mp hclear
      exact Or.inr ⟨.clear hentry, by simpa [hadvance] using .clear hrest⟩
  | fault hfault =>
      rcases firstFault_append.mp hfault with hentry | ⟨hentry, ⟨hadvance, rfl⟩ | ⟨hadvance, hrest⟩⟩
      · exact Or.inl ⟨by simp, .fault hentry⟩
      · exact Or.inr ⟨.clear hentry, by simp [hadvance, thrownBy]⟩
      · exact Or.inr ⟨.clear hentry, by simpa [hadvance] using .fault hrest⟩

/-- The walk ends at the last entry or at the first call that fails. Induction on the places still
to come: the view lists those that were passed. -/
theorem syncLoop_ends {env : Env} {d : Loc} (hd : d ≠ []) (ls : List Loc) {passed : List Loc}
    {w : World} {dir : Dir} (hdir : dir.path = toPath d)
    (hbelow : ∀ l ∈ passed ++ ls, d <+: l ∧ l ≠ d) (hnodup : (passed ++ ls).Nodup)
    (hcontent : dir.content = passed.filterMap (fileEntry env w.disk d)) (q : MessageQueue)
    {ends : SyncEnd} (h : EndsBy env w.calls (walkCalls w.disk (ls.map toPath)) ends) :
    ∃ w' dir' q', syncLoop env (ls.map toPath) w dir q = (w', dir', q', ends) := by
  induction ls generalizing passed w dir q with
  | nil =>
      cases h with
      | clear => exact ⟨w, dir, q, rfl⟩
      | fault hfault => exact hfault.elim
  | cons l ls ih =>
      obtain ⟨hl, hne⟩ := hbelow l (by simp)
      have hnew : ∀ e ∈ dir.content, ¬ sameKey env.hash e.1 (toPath (l.drop d.length)) := by
        intro e he
        rw [hcontent] at he
        obtain ⟨k, hk, hentry⟩ := List.mem_filterMap.mp he
        obtain ⟨i, -, rfl⟩ := fileEntry_eq_some.mp hentry
        have hkl : k ≠ l := (List.nodup_append.mp hnodup).2.2 k hk l List.mem_cons_self
        exact fun hsame => hkl (eq_of_key hl (hbelow k (List.mem_append_left _ hk)).1 hsame.2)
      rw [List.map_cons] at h ⊢
      rcases h.cons with ⟨hstop, hentry⟩ | ⟨hentry, hrest⟩
      · -- A call on the entry fails.
        obtain ⟨w1, dir1, q1, hentry, -⟩ := syncEntry_ends hd hdir hl hne hnew q hentry
        refine ⟨w1, dir1, q1, ?_⟩
        rw [syncLoop, hentry]
        cases ends with
        | done => exact absurd rfl hstop
        | duplicate => rfl
        | thrown t => rfl
      · -- The entry is passed, and the step to the next one may fail.
        obtain ⟨w1, dir1, q1, hentry, hcalls⟩ := syncEntry_ends hd hdir hl hne hnew q hentry
        have hread := syncEntry_reads env w dir q (toPath l)
        have hadded := syncEntry_done hd hdir hl hne hentry
        rw [hentry] at hread
        rw [← hcalls rfl] at hrest
        rw [syncLoop, hentry]
        dsimp only
        split
        · rename_i hadvance
          rw [if_pos hadvance] at hrest
          exact ⟨_, _, _, by rw [hrest]⟩
        · rename_i hadvance
          rw [if_neg hadvance, ← hread.disk] at hrest
          refine @ih (passed ++ [l]) (w1.record (.advance (toPath l))) dir1
            (hread.path.trans hdir) (by simpa using hbelow) (by simpa using hnodup) ?_ q1 hrest
          rw [hadded, hcontent, World.record_disk, hread.disk, List.filterMap_append]
          rfl

/-! ### How a SYNC ends -/

/-- The call that stops the traversal of a SYNC: the iterator cannot be made, or a call of the walk
is the first to fail. -/
inductive SyncStops (env : Env) (w : World) (d : Loc) : FsCall → Prop
  | iterator : iterate env w (toPath d) = none → SyncStops env w d (.iterate (toPath d))
  | walk {entries : List Path} {c : FsCall} : iterate env w (toPath d) = some entries →
      FirstFault env.fails c (.iterate (toPath d) :: w.calls) (walkCalls w.disk entries) →
      SyncStops env w d c

/-- On a file system without faults, nothing stops the SYNC of a directory that is there. -/
theorem not_syncStops {env : Env} (hfaults : env.NoFaults) {w : World} {d : Loc}
    (hroot : w.disk.node d = some .dir) (c : FsCall) : ¬ SyncStops env w d c := by
  intro hstops
  cases hstops with
  | iterator hnone =>
      rw [iterate, hfaults, Disk.status_toPath, hroot] at hnone
      exact absurd hnone (by simp)
  | walk _ hfault => exact not_firstFault hfaults hfault

/-- The walk of a SYNC of an empty view. -/
theorem handleSync_loop {env : Env} {w : World} {dir : Dir} {d : Loc} (hd : d ≠ [])
    (hpath : dir.path = toPath d) (hempty : dir.content = []) {entries : List Path}
    (hentries : iterate env w (toPath d) = some entries) (q : MessageQueue) {ends : SyncEnd}
    (h : EndsBy env (.iterate (toPath d) :: w.calls) (walkCalls w.disk entries) ends) :
    ∃ w' dir' q', syncLoop env entries (w.record (.iterate dir.path)) dir q =
        (w', dir', q', ends) ∧ dir'.path = toPath d ∧
      (ends = .done → dir'.content =
        (env.visit (w.disk.entriesBelow d)).filterMap (fileEntry env w.disk d)) := by
  have hbelow : ∀ l ∈ env.visit (w.disk.entriesBelow d), d <+: l ∧ l ≠ d := fun l hl =>
    ⟨(mem_entriesBelow.mp ((env.visit_perm _).mem_iff.mp hl)).1,
      (mem_entriesBelow.mp ((env.visit_perm _).mem_iff.mp hl)).2.1⟩
  obtain rfl := (iterate_below hd hentries).2
  obtain ⟨w', dir', q', hloop⟩ := @syncLoop_ends env d hd (env.visit (w.disk.entriesBelow d)) []
    (w.record (.iterate dir.path)) dir hpath (by simpa using hbelow)
    (by simpa using nodup_visit env w.disk d) hempty q ends (by rw [hpath]; exact h)
  have hread := syncLoop_reads env ((env.visit (w.disk.entriesBelow d)).map toPath)
    (w.record (.iterate dir.path)) dir q
  rw [hloop] at hread
  refine ⟨w', dir', q', hloop, hread.path.trans hpath, ?_⟩
  rintro rfl
  rw [syncLoop_done hd _ hbelow hpath hloop, hempty, List.nil_append, World.record_disk]

/-- When no call fails, a SYNC of an empty view is answered OK, and the view has an entry for each
file that the iterator met. -/
theorem handleSync_done {env : Env} {w : World} {u : User} {dir : Dir} {d : Loc} (hd : d ≠ [])
    (hclear : ∀ c, ¬ SyncStops env w d c) (hdir : u.dir = some dir) (hpath : dir.path = toPath d)
    (hempty : dir.content = []) (q : MessageQueue) :
    w.disk.node d = some .dir ∧ ∃ w' dir' q', handleSync env w u q =
        answer w' { u with dir := some dir', isSynced := true } q' .ok .none ∧
      dir'.path = toPath d ∧
      dir'.content = (env.visit (w.disk.entriesBelow d)).filterMap (fileEntry env w.disk d) := by
  have hptr : u.dirPtr = .ok dir := by simp [User.dirPtr, hdir]
  obtain ⟨entries, hentries⟩ :=
    Option.ne_none_iff_exists'.mp fun hnone => hclear _ (.iterator hnone)
  have hwalk : Faultless env.fails (.iterate (toPath d) :: w.calls)
      (walkCalls w.disk entries) := by
    rcases faultless_or_firstFault env.fails _ _ with hwalk | ⟨c, hc⟩
    · exact hwalk
    · exact absurd (.walk hentries hc) (hclear c)
  obtain ⟨w', dir', q', hloop, hpath', hcontent⟩ :=
    handleSync_loop hd hpath hempty hentries q (.clear hwalk)
  refine ⟨(iterate_below hd hentries).1, w', dir', q', ?_, hpath', hcontent rfl⟩
  rw [← hpath] at hentries
  simp only [handleSync, hptr, attempt, hentries, hloop]

/-! ### The listing -/

/-- A view with one entry for each regular file below `d`: synced, under a key that leads to the
file, and with the digest of key and content. -/
structure ListsTree (env : Env) (disk : Disk) (d : Loc) (dir : Dir) : Prop where
  distinct : (dir.content.map Prod.fst).Nodup
  entries : ∀ k r, (k, r) ∈ dir.content → ∃ l i, d <+: l ∧ disk.node l = some (.file i) ∧
    append dir.path k = toPath l ∧ r = ⟨true, md5HashString env (k ++ disk.content i)⟩
  files : ∀ l i, d <+: l → disk.node l = some (.file i) →
    ∃! e, e ∈ dir.content ∧ append dir.path e.1 = toPath l

/-- A path is spelled in one way. -/
theorem toPath_injective {l k : Loc} (h : toPath l = toPath k) : l = k := by
  rw [← denote_toPath l, h, denote_toPath]

/-- The key of a place below the directory leads back to that place. -/
theorem append_key {d l : Loc} (hd : d ≠ []) (hl : d <+: l) (hne : l ≠ d) :
    append (toPath d) (toPath (l.drop d.length)) = toPath l := by
  obtain ⟨-, hrest⟩ := toPath_below hd hl hne
  rw [append_plain hd hrest (Or.inl rfl), List.prefix_iff_eq_append.mp hl]

/-- The entries that a walk over different places makes have different keys. -/
theorem nodup_keys {env : Env} {disk : Disk} {d : Loc} {ls : List Loc}
    (hbelow : ∀ l ∈ ls, d <+: l) (hnodup : ls.Nodup) :
    ((ls.filterMap (fileEntry env disk d)).map Prod.fst).Nodup := by
  rw [List.Nodup, List.pairwise_map, List.pairwise_filterMap]
  refine hnodup.imp_of_mem fun {l k} hl hk hne e he e' he' heq => hne ?_
  obtain ⟨i, -, rfl⟩ := fileEntry_eq_some.mp he
  obtain ⟨j, -, rfl⟩ := fileEntry_eq_some.mp he'
  exact eq_of_key (hbelow k hk) (hbelow l hl) (congrArg elements heq)

/-- The entries of the files that the iterator meets list the tree. -/
theorem listsTree_of_content {env : Env} {disk : Disk} {d : Loc} (hd : d ≠ []) {dir : Dir}
    (hpath : dir.path = toPath d) (hroot : disk.node d = some .dir)
    (hcontent : dir.content =
      (env.visit (disk.entriesBelow d)).filterMap (fileEntry env disk d)) :
    ListsTree env disk d dir := by
  have hvisited : ∀ l, l ∈ env.visit (disk.entriesBelow d) ↔
      d <+: l ∧ l ≠ d ∧ disk.node l ≠ none := fun l =>
    ((env.visit_perm _).mem_iff).trans mem_entriesBelow
  have hdistinct := @nodup_keys env disk d _ (fun l hl => ((hvisited l).mp hl).1)
    (nodup_visit env disk d)
  constructor
  case distinct =>
    rw [hcontent]
    exact hdistinct
  case entries =>
    intro k r hk
    rw [hcontent] at hk
    obtain ⟨l, hl, hentry⟩ := List.mem_filterMap.mp hk
    obtain ⟨hbelow, hne, -⟩ := (hvisited l).mp hl
    obtain ⟨i, hi, he⟩ := fileEntry_eq_some.mp hentry
    obtain ⟨rfl, rfl⟩ := Prod.mk.inj he
    exact ⟨l, i, hbelow, hi, by rw [hpath, append_key hd hbelow hne], rfl⟩
  case files =>
    intro l i hl hi
    have hne : l ≠ d := by
      rintro rfl
      rw [hroot] at hi
      exact absurd hi (by simp)
    have hentry := (@fileEntry_eq_some env disk d l _).mpr ⟨i, hi, rfl⟩
    have hlisted := List.mem_filterMap.mpr
      ⟨l, (hvisited l).mpr ⟨hl, hne, by simp [hi]⟩, hentry⟩
    refine ⟨_, ⟨hcontent ▸ hlisted, by rw [hpath, append_key hd hl hne]⟩, ?_⟩
    -- An entry that leads to the same file comes from the same place.
    · rintro e ⟨he, hplace⟩
      rw [hcontent] at he
      obtain ⟨k, hk, hentry⟩ := List.mem_filterMap.mp he
      obtain ⟨hbelow, hkd, -⟩ := (hvisited k).mp hk
      obtain ⟨j, hj, rfl⟩ := fileEntry_eq_some.mp hentry
      rw [hpath, append_key hd hbelow hkd] at hplace
      obtain rfl := toPath_injective hplace
      rw [hi] at hj
      cases hj
      rfl

/-- **A SYNC lists exactly the user's files.** For every tree below the user's directory that
can be read, and an empty view: the answer is OK, the session is synced, the view has exactly one
entry for each file, and the ITEMs of the reply, over all its messages, are the signs of these
entries, each once. -/
theorem sync_lists_tree {env : Env} {w : World} {u : User} {dir : Dir}
    (hdir : u.dir = some dir) (hpath : dir.path = toPath (userDirectory env u))
    (hempty : dir.content = []) (hclear : ∀ c, ¬ SyncStops env w (userDirectory env u) c) :
    ∃ dir' r items,
      (handleSync env w u (MessageQueue.ofType MsgType.sync.toByte)).result = .ok r ∧
      r.status = .ok ∧
      (handleSync env w u (MessageQueue.ofType MsgType.sync.toByte)).user =
        { u with dir := some dir', isSynced := true } ∧
      dir'.path = dir.path ∧ ListsTree env w.disk (userDirectory env u) dir' ∧
      Shaped r MsgType.sync.toByte items ∧
      items.map splitSign = dir'.content.map fun e => .ok (e.1, e.2.digest) := by
  have hd := userDirectory_ne_nil env u
  obtain ⟨hroot, w', dir', q', heq, hpath', hcontent⟩ := handleSync_done hd hclear hdir hpath
    hempty (MessageQueue.ofType MsgType.sync.toByte)
  have hanswered : (handleSync env w u (MessageQueue.ofType MsgType.sync.toByte)).Answered .ok
      .none := by
    rw [heq]
    exact ⟨_, rfl, rfl, rfl⟩
  obtain ⟨dir'', r, hdir'', hr, hshaped⟩ :=
    handleSync_items hdir hempty (itemized_ofType _) hanswered
  obtain ⟨r', hr', hstatus, -⟩ := hanswered
  obtain rfl := Except.ok.inj (hr'.symm.trans hr)
  rw [heq] at hdir''
  obtain rfl := Option.some.inj hdir''
  have hlists := listsTree_of_content hd hpath' hroot hcontent
  refine ⟨dir', r', _, hr, hstatus, by rw [heq]; rfl, hpath'.trans hpath.symm, hlists, hshaped, ?_⟩
  -- The digest of an entry is written in digits, so each ITEM is split where it was joined.
  rw [List.map_map]
  refine List.map_congr_left fun e he => ?_
  obtain ⟨l, i, -, -, -, hresource⟩ := hlists.entries e.1 e.2 he
  refine splitSign_createSign ?_ e.1
  rw [hresource]
  exact fun hnul => (md5ToString_digits _ _ hnul).2.1 rfl

/-- `bobby`'s session before its SYNC. -/
def bobbyUnsynced : User := { bobby [] with isSynced := false }

/-- `bobby` comes back to the directory `/d`, with the file `/d/g` and in `/d/e` the file
`/d/e/f`. -/
theorem sync_lists_tree_bobby :
    ∃ dir' r items,
      (handleSync treeEnv bobbyTree.world bobbyUnsynced
        (MessageQueue.ofType MsgType.sync.toByte)).result = .ok r ∧
      r.status = .ok ∧
      (handleSync treeEnv bobbyTree.world bobbyUnsynced
        (MessageQueue.ofType MsgType.sync.toByte)).user =
          { bobbyUnsynced with dir := some dir', isSynced := true } ∧
      dir'.path = bobbyPath ∧
      ListsTree treeEnv bobbyTree.world.disk (userDirectory treeEnv bobbyUnsynced) dir' ∧
      Shaped r MsgType.sync.toByte items ∧
      items.map splitSign = dir'.content.map fun e => .ok (e.1, e.2.digest) :=
  @sync_lists_tree _ _ _ ⟨bobbyPath, []⟩ rfl (by decide +kernel) rfl
    (not_syncStops (Env.noFaults_ofTables _ _ _ _) (by decide +kernel))

/-! ### A SYNC that fails -/

/-- What a failed SYNC is to leave: an empty view in a session that is authenticated and not
synced, and a reply whose TLVs are an ERROR and an END. -/
structure LeftClean (o : Outcome) : Prop where
  view : ∃ dir, o.user.dir = some dir ∧ dir.content = []
  auth : o.user.isAuth = true
  unsynced : o.user.isSynced = false
  reply : ∃ r, o.result = .ok r ∧ r.status = .error ∧ Shaped r MsgType.sync.toByte []

/-- The `catch` block of `handle_sync`. -/
theorem leftClean_caught {w : World} {u : User} (hauth : u.isAuth = true)
    (hsynced : u.isSynced = false) (dir : Dir) :
    LeftClean (answer w { u with dir := some dir.clear }
      (MessageQueue.ofType MsgType.sync.toByte) .error .syncFailed) where
  view := ⟨dir.clear, rfl, rfl⟩
  auth := hauth
  unsynced := hsynced
  reply := ⟨_, rfl, rfl, (itemized_ofType _).close (Or.inr rfl) _⟩

/-- **A failed SYNC leaves nothing behind, unless a file does not open.** For every tree and
every call of the traversal that is the first to fail: the session is as before and the reply has
no ITEM exactly when this call was not to open a file for its digest. -/
theorem failed_sync_clean_iff {env : Env} {w : World} {u : User} {dir : Dir} {c : FsCall}
    (hauth : u.isAuth = true) (hsynced : u.isSynced = false) (hdir : u.dir = some dir)
    (hpath : dir.path = toPath (userDirectory env u)) (hempty : dir.content = [])
    (hstops : SyncStops env w (userDirectory env u) c) :
    LeftClean (handleSync env w u (MessageQueue.ofType MsgType.sync.toByte)) ↔
      ∀ p, c ≠ .openRead p := by
  have hd := userDirectory_ne_nil env u
  have hptr : u.dirPtr = .ok dir := by simp [User.dirPtr, hdir]
  cases hstops with
  | iterator hnone =>
      rw [← hpath] at hnone
      simp only [handleSync, hptr, attempt, hnone]
      exact iff_of_true (leftClean_caught hauth hsynced dir) (by simp)
  | walk hentries hfault =>
      obtain ⟨w', dir', q', hloop, -⟩ := handleSync_loop hd hpath hempty hentries
        (MessageQueue.ofType MsgType.sync.toByte) (.fault hfault)
      rw [← hpath] at hentries
      simp only [handleSync, hptr, attempt, hentries, hloop]
      -- The exception of an unreadable file is the one that is not caught.
      cases c with
      | openRead p =>
          refine iff_of_false (fun hclean => ?_) (fun hne => hne p rfl)
          obtain ⟨r, hr, -⟩ := hclean.reply
          exact absurd hr (by simp [thrownBy, halted])
      | createDirectories | openStream | remove | rename | isEmpty | iterate | advance
        | isRegularFile =>
          exact iff_of_true (leftClean_caught hauth hsynced dir') (by simp)

/-- The advance of the iterator fails behind the file. -/
theorem failed_sync_clean_iff_bobby :
    LeftClean (handleSync { bobbyAndBobEnv [ahi, anew] with
        fails := fun _ call => decide (call = .advance (append bobbyPath (ascii "/a"))) }
      bobbyStored.world bobbyUnsynced (MessageQueue.ofType MsgType.sync.toByte)) ↔
      ∀ p, FsCall.advance (append bobbyPath (ascii "/a")) ≠ .openRead p :=
  @failed_sync_clean_iff _ _ _ ⟨bobbyPath, []⟩ _ rfl rfl rfl (by decide +kernel) rfl
    (@SyncStops.walk _ _ _ [append bobbyPath (ascii "/a")] _ (by decide +kernel)
      (by decide +kernel))

/-- Surroundings in which no file opens for reading. -/
def unreadableEnv : Env :=
  { bobbyAndBobEnv [ahi, anew] with
    fails := fun _ call => match call with
      | .openRead _ => true
      | _ => false }

/-- The SYNC of a directory with one file that does not open leaves no reply. -/
theorem not_failed_sync_clean :
    SyncStops unreadableEnv bobbyStored.world (userDirectory unreadableEnv bobbyUnsynced)
        (.openRead (append bobbyPath (ascii "/a"))) ∧
      ¬ LeftClean (handleSync unreadableEnv bobbyStored.world bobbyUnsynced
        (MessageQueue.ofType MsgType.sync.toByte)) := by
  refine ⟨@SyncStops.walk _ _ _ [append bobbyPath (ascii "/a")] _ (by decide +kernel)
    (by decide +kernel), fun hclean => ?_⟩
  obtain ⟨r, hr, -⟩ := hclean.reply
  have hthrows : (handleSync unreadableEnv bobbyStored.world bobbyUnsynced
      (MessageQueue.ofType MsgType.sync.toByte)).result = .error .uncaughtException := by
    decide +kernel
  exact absurd (hr.symm.trans hthrows) (by simp)

end RemoteBackup.Proofs
