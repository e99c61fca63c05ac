import RemoteBackup.Proofs.EraseUndoesCreate

/-!
# `RemoteBackup.Proofs.EraseForgets`: a CREATE after an ERASE of the same path

An ERASE takes the entry out of the view and the file off the disk, and leaves the stream of an
upload in progress in the table. The CREATE behind it opens a new file and then gets that stream,
which writes elsewhere.

* `cleanup_passable_iff`: whether the way to the path is free when the loop of ERASE has ended.
* `create_recreates_iff`: when a complete CREATE stores its content.
* `erase_forgets_iff`: the two together, on the state before the ERASE.
* `not_erase_forgets`: `bobby` erases `/a` between two chunks, and cannot store it then.
-/

set_option autoImplicit false

namespace RemoteBackup.Proofs

open Lib

variable {env : Env}

/-! ### What ERASE leaves -/

/-- The loop only removes. -/
theorem cleanup_node_some {dirPath : Path} {fuel : Nat} {w : World} {tmp : Path} {k : Loc}
    {v : Node} (h : (cleanup env dirPath fuel w tmp).disk.node k = some v) :
    w.disk.node k = some v := by
  induction fuel generalizing w tmp with
  | zero => exact h
  | succ fuel ih =>
      have hround := cleanup_round env dirPath fuel w tmp
      generalize cleanup env dirPath (fuel + 1) w tmp = w' at hround h
      have hemptied : (emptied env w tmp).disk.node k = some v → w.disk.node k = some v := by
        intro hv
        rcases (w.record (.isEmpty tmp)).remove_cases env tmp with hsame |
          ⟨l, -, hne, -, hchildren, hdetach, -⟩
        · rwa [emptied, hsame] at hv
        · rw [emptied, hdetach] at hv
          exact Disk.detach_subset hv
      cases hround with
      | atDir => exact h
      | notEmpty => exact h
      | failed => exact hemptied h
      | next => exact hemptied (ih h)

/-- No file stands on the way to `m`, except that an empty one may stand at `m`, below `home`. The
loop of ERASE takes it for an empty directory. -/
def ClearsWay (d : Disk) (home m : Loc) : Prop :=
  ∀ k i, k <+: m → d.node k = some (.file i) → k = m ∧ k ≠ home ∧ d.content i = []

/-- The loop comes to an empty file. -/
theorem cleanup_file (hfaults : env.NoFaults) {home ms : Loc} {n : Name} {fuel : Nat} {w : World}
    {i : Nat} (hfile : w.disk.node (home ++ ms ++ [n]) = some (.file i))
    (hempty : w.disk.content i = []) :
    (cleanup env (toPath home) (fuel + 1) w (toPath (home ++ ms ++ [n]))).disk.node
      (home ++ ms ++ [n]) = none := by
  have hlocate := Disk.locate_toPath_of_node (by rw [hfile]; simp)
  have hanswer : w.disk.isEmpty (toPath (home ++ ms ++ [n])) = some true := by
    rw [Disk.isEmpty_file hfile, hempty]
    rfl
  obtain ⟨hgone, hdisk⟩ := @remove_of_noFaults env hfaults
    (w.record (.isEmpty (toPath (home ++ ms ++ [n])))) (toPath (home ++ ms ++ [n]))
    (by rw [World.record_disk, Disk.remove_file hlocate hfile])
  rw [cleanup_succ hfaults, if_pos hanswer, hgone]
  by_contra hleft
  obtain ⟨v, hv⟩ := Option.ne_none_iff_exists'.mp hleft
  have hv' := cleanup_node_some hv
  rw [hdisk, World.record_disk, Disk.remove_file_node hlocate hfile, Function.update_self] at hv'
  exact absurd hv' (by simp)

/-- Whether the way is free when the loop has ended. -/
theorem cleanup_passable_iff (hfaults : env.NoFaults) {home ms : Loc} {fuel : Nat} {w : World} :
    (cleanup env (toPath home) (fuel + 1) w (toPath (home ++ ms))).disk.Passable (home ++ ms) ↔
      ClearsWay w.disk home (home ++ ms) := by
  constructor
  · intro hpass k i hk hi
    obtain rfl | ⟨ms, n, rfl⟩ := ms.eq_nil_or_concat'
    · rw [List.append_nil] at hpass hk
      rw [cleanup, if_pos rfl] at hpass
      exact absurd ⟨i, hi⟩ (hpass k hk)
    · rw [← List.append_assoc] at hpass hk ⊢
      by_cases hempty : w.disk.isEmpty (toPath (home ++ ms ++ [n])) = some true
      · -- Something stands at the end of the way, so the file does.
        have hnode := Disk.node_of_isEmpty hempty
        have hend : k = home ++ ms ++ [n] := by
          by_contra hne
          have hdir := w.disk.dir_of_prefix hk hne hnode
          exact absurd (hdir.symm.trans hi) (by simp)
        subst hend
        refine ⟨rfl, fun hhome => ?_, ?_⟩
        · have hlength := congrArg List.length hhome
          simp at hlength
        · rw [Disk.isEmpty_file hi] at hempty
          simpa using hempty
      · rw [cleanup_succ hfaults, if_neg hempty] at hpass
        exact absurd ⟨i, hi⟩ (hpass k hk)
  · rintro hclear k hk ⟨i, hi⟩
    obtain ⟨rfl, hhome, hempty⟩ := hclear k i hk (cleanup_node_some hi)
    obtain rfl | ⟨ms, n, rfl⟩ := ms.eq_nil_or_concat'
    · exact hhome (List.append_nil home)
    · rw [← List.append_assoc] at hi
      have hfile := cleanup_node_some hi
      rw [cleanup_file hfaults hfile hempty] at hi
      exact absurd hi (by simp)

/-- After a `remove` without an error nothing is left at the place. -/
theorem removed_node (hfaults : env.NoFaults) {w : World} {l : Loc}
    (h : (w.remove env (toPath l)).2 = true) :
    (removed env w (toPath l)).disk.node = Function.update w.disk.node l none := by
  have hremove := (remove_iff.mp h).2
  rw [(remove_of_noFaults hfaults hremove).2]
  cases hlocate : w.disk.locate (toPath l) with
  | none =>
      have hnone : w.disk.node l = none := by
        by_contra hnode
        rw [Disk.locate_toPath_of_node hnode] at hlocate
        exact absurd hlocate (by simp)
      rw [Disk.remove, hlocate]
      exact (Function.update_eq_self_iff.mpr hnone.symm).symm
  | some l' =>
      obtain rfl := Disk.eq_of_locate_toPath hlocate
      exact (Disk.remove_gone hlocate hremove).1

/-- What an ERASE that is answered OK leaves: the entry and what stood at `l` are gone, and the
stream is where it was. -/
structure Erased (env : Env) (w : World) (u : User) (dir : Dir) (path : Path) (home l : Loc)
    (o : Outcome) : Prop where
  user : o.user = { u with dir := some (dir.erase env.hash path).1 }
  streams : o.world.streams = w.streams
  free : o.world.disk.node l = none
  way : o.world.disk.Passable l.dropLast ↔ ClearsWay w.disk home l.dropLast

/-- An ERASE answered OK has removed the file and forgotten its entry. -/
theorem eraseEntry_erased (hfaults : env.NoFaults) {w : World} {u : User} {dir : Dir}
    {replies : MessageQueue} {path : Path} {home ns : Loc} (hhome : home ≠ [])
    (hpath : dir.path = toPath home) (hns : ns ≠ [])
    (hplain : path = toPath ns ∨ sep :: path = toPath ns)
    (hok : (eraseEntry env w u dir replies path).Answered .ok .none) :
    Erased env w u dir path home (home ++ ns) (eraseEntry env w u dir replies path) := by
  have habsolute : append dir.path path = toPath (home ++ ns) := by
    rw [hpath, append_plain hhome hns hplain]
  cases hremove : (w.remove env (toPath (home ++ ns))).2 with
  | false =>
      rw [eraseEntry, habsolute, eq_of_snd hremove] at hok
      exact absurd hok not_answered_error
  | true =>
      have hnode := removed_node hfaults hremove
      obtain ⟨ms, n, rfl⟩ := (List.eq_nil_or_concat' ns).resolve_left hns
      rw [← List.append_assoc] at habsolute hremove hnode ⊢
      have hresult : eraseEntry env w u dir replies path =
          answer (cleanup env (toPath home) ((toPath (home ++ ms)).length + 1)
            (removed env w (toPath (home ++ ms ++ [n]))) (toPath (home ++ ms)))
            { u with dir := some (dir.erase env.hash path).1 } replies
            (if (dir.erase env.hash path).2 then .ok else .error) .none := by
        have hgone : w.remove env (toPath (home ++ ms ++ [n])) =
            (removed env w (toPath (home ++ ms ++ [n])), true) := eq_of_snd hremove
        simp only [eraseEntry, habsolute, hgone, parentPath_toPath]
        rw [hpath]
      rw [hresult]
      constructor
      case user => rfl
      case streams => exact (cleanup_streams env _ _ _ _).trans (World.remove_streams env _ _)
      case free =>
        by_contra hleft
        obtain ⟨v, hv⟩ := Option.ne_none_iff_exists'.mp hleft
        have hv' := cleanup_node_some hv
        rw [hnode, Function.update_self] at hv'
        exact absurd hv' (by simp)
      case way =>
        rw [List.dropLast_concat]
        refine (cleanup_passable_iff hfaults).trans (forall₂_congr fun k i => ?_)
        refine imp_congr_right fun hk => ?_
        -- What stands above the file is not the file.
        have hne : k ≠ home ++ ms ++ [n] := by
          rintro rfl
          have hlength := hk.length_le
          rw [List.length_append, List.length_singleton] at hlength
          omega
        rw [hnode, Function.update_of_ne hne, removed, World.remove_content]

/-! ### What CREATE does there -/

/-- The last chunk goes to a stream that was left behind. The new file stays empty. -/
theorem createTransfer_stale (hfaults : env.NoFaults) {w : World} {u : User} {dir : Dir}
    {view : TlvView} {replies : MessageQueue} {path digest : Bytes} {l : Loc}
    (hpath : append dir.path path = toPath l) (hl : l ≠ []) (hpass : w.disk.Passable l.dropLast)
    (hfree : w.disk.node l = none) {i : Nat} (hopen : w.openOn u.id = some i) {content : Bytes}
    (hcontent : view.value = .ok content) (hend : view.verifyEnd = .ok true) :
    ∃ w' dir', w'.disk.read (append dir.path path) = some [] ∧
      createTransfer env w u dir view replies path digest =
        checkDigest env w' u dir' replies (append dir.path path) path digest .createNoMatch
          .createFailed := by
  obtain ⟨pending, hstream⟩ := World.openOn_eq_some.mp hopen
  obtain ⟨hmade, j, hgrown, hcases, hstreams⟩ :=
    opened_grown hfaults hpath hl hpass (by simp [hfree]) u.id
  obtain ⟨rfl, hbytes⟩ : j = w.disk.next ∧
      (opened env (created env w dir path) u.id (append dir.path path)).disk.content =
        Function.update w.disk.content j [] := by
    rcases hcases with ⟨hfile, -⟩ | ⟨-, hj, hbytes⟩
    · rw [hfree] at hfile
      exact absurd hfile (by simp)
    · exact ⟨hj, hbytes⟩
  rw [hstream, if_neg (by simp)] at hstreams
  have hself : (opened env (created env w dir path) u.id (append dir.path path)).openOn u.id =
      some i := by rw [openOn_congr hstreams, hopen]
  refine ⟨_, _, ?_, createTransfer_usable hmade (by rw [World.usable_eq, hself]; rfl) hcontent hend⟩
  generalize opened env (created env w dir path) u.id (append dir.path path) = w2
    at hgrown hbytes hself
  -- The stream writes to an older file.
  have hne : w2.openOn u.id ≠ some w.disk.next := by
    rw [hself]
    exact fun heq => absurd (World.openOn_lt hopen) (by rw [Option.some.inj heq]; omega)
  have hnode : (closed (written env w2 u.id content true) u.id).disk.node l =
      some (.file w.disk.next) := by
    rw [closed, World.closed_node, written_node]
    exact hgrown.file
  have hheld : (closed (written env w2 u.id content true) u.id).disk.content w.disk.next = [] := by
    have hframe := written_frame env w2 u.id content true
    rw [closed, World.closed_content, World.settled, hframe.openOn, if_neg hne, List.append_nil,
      hframe.bytes _ hne, hbytes, Function.update_self]
  rw [hpath, Disk.read_toPath hnode, hheld]

/-- So it stores its content only when there is none. -/
theorem createTransfer_stale_iff (hfaults : env.NoFaults) {w : World} {u : User} {dir : Dir}
    {view : TlvView} {replies : MessageQueue} {path : Path} {l : Loc}
    (hpath : append dir.path path = toPath l) (hl : l ≠ []) (hpass : w.disk.Passable l.dropLast)
    (hfree : w.disk.node l = none) {i : Nat} (hopen : w.openOn u.id = some i) {content : Bytes}
    (hcontent : view.value = .ok content) (hend : view.verifyEnd = .ok true) {o : Outcome}
    (ho : o = createTransfer env w u dir view replies path
      (md5HashString env (path ++ content))) :
    (o.Answered .ok .none ∧ o.world.disk.read (append dir.path path) = some content) ↔
      content = [] := by
  obtain ⟨w', dir', hread, hcreate⟩ := @createTransfer_stale env hfaults w u dir view replies path
    (md5HashString env (path ++ content)) l hpath hl hpass hfree i hopen content hcontent hend
  rw [ho, hcreate, checkDigest_ok_iff hfaults hread]
  constructor
  · rintro ⟨hdigest, hstored⟩
    rw [checkDigest_matching hfaults hread hdigest] at hstored
    exact Option.some.inj (hstored.symm.trans hread)
  · rintro rfl
    refine ⟨rfl, ?_⟩
    rw [checkDigest_matching hfaults hread rfl]
    exact hread

/-- A CREATE that is answered OK found no file on the way to its target. -/
theorem passable_of_created (hfaults : env.NoFaults) {w : World} {u : User} {dir : Dir}
    {view : TlvView} {replies : MessageQueue} {path digest : Bytes} {l : Loc}
    (hpath : append dir.path path = toPath l) (hl : l ≠ [])
    (hok : (createTransfer env w u dir view replies path digest).Answered .ok .none) :
    w.disk.Passable l.dropLast := by
  have hends := createTransfer_ends env w u dir view replies path digest
  generalize createTransfer env w u dir view replies path digest = o at hends hok
  cases hends with
  | noParent => exact absurd hok not_answered_error
  | hasParent hmade =>
      obtain ⟨m, n, rfl⟩ := (List.eq_nil_or_concat' l).resolve_left hl
      rw [hpath, parentPath_toPath, (createDirectories_of_noFaults hfaults w _).1] at hmade
      rw [List.dropLast_concat]
      exact Disk.passable_of_createDirectories hmade

/-- The user's stream was not one that failed to open. -/
theorem alive_of_created {w : World} {u : User} {dir : Dir} {view : TlvView}
    {replies : MessageQueue} {path digest pending : Bytes}
    (hok : (createTransfer env w u dir view replies path digest).Answered .ok .none) :
    w.streams u.id ≠ some ⟨none, pending⟩ := by
  intro hdead
  have hends := createTransfer_ends env w u dir view replies path digest
  generalize createTransfer env w u dir view replies path digest = o at hends hok
  cases hends with
  | noParent => exact absurd hok not_answered_error
  | hasParent _ _ hwrite =>
      have hdead' : (created env w dir path).streams u.id = some ⟨none, pending⟩ := by
        rw [created, World.createDirectories_streams, hdead]
      obtain ⟨r, hr, hstatus, -⟩ := (hwrite.refused_of_dead ⟨pending, hdead'⟩).1
      obtain ⟨r', hr', hstatus', -⟩ := hok
      rw [hr, Except.ok.injEq] at hr'
      rw [hr', hstatus'] at hstatus
      exact absurd hstatus (by simp)

/-- The request is answered OK, and `target` holds `content` then. -/
def Stores (env : Env) (w : World) (u : User) (m : Message) (target : Path) (content : Bytes) :
    Prop :=
  (handleRequest env w u m).Answered .ok .none ∧
    (handleRequest env w u m).world.disk.read target = some content

/-- When a complete CREATE stores its content at a path without an entry, where nothing stands. -/
theorem create_recreates_iff (hfaults : env.NoFaults) {w : World} {u : User} {dir : Dir}
    (hready : Transferring u dir) {path : Path} {l : Loc} (hpath : append dir.path path = toPath l)
    (hl : l ≠ []) (hentry : dir.rsrc env.hash path = none) (hfree : w.disk.node l = none)
    {content : Bytes} {m : Message}
    (hm : Uploads .create path (md5HashString env (path ++ content)) content true m) :
    Stores env w u m (append dir.path path) content ↔
      (w.streams u.id = none ∨ w.usable u.id = true ∧ content = []) ∧
        w.disk.Passable l.dropLast := by
  obtain ⟨view, replies, htask, hcontent, hend⟩ := @taskOf_creates env u dir _ _ _ _ _ hm hready
    (by simp [hentry])
  have hserved : handleRequest env w u m = createTransfer env w u dir view replies path
      (md5HashString env (path ++ content)) := by
    rw [handleRequest_eq_perform, htask, perform]
  have hstale : ∀ i, w.openOn u.id = some i → w.disk.Passable l.dropLast →
      (Stores env w u m (append dir.path path) content ↔ content = []) := fun i hopen hpass =>
    createTransfer_stale_iff hfaults hpath hl hpass hfree hopen hcontent hend hserved
  constructor
  · intro hstores
    have hok := hserved ▸ hstores.1
    have hpass := passable_of_created hfaults hpath hl hok
    refine ⟨?_, hpass⟩
    rcases hstream : w.streams u.id with _ | ⟨_ | i, pending⟩
    · exact Or.inl rfl
    · exact absurd hstream (alive_of_created hok)
    · have hopen : w.openOn u.id = some i := World.openOn_eq_some.mpr ⟨pending, hstream⟩
      exact Or.inr ⟨by rw [World.usable_eq, hopen]; rfl, (hstale i hopen hpass).mp hstores⟩
  · rintro ⟨hnone | ⟨husable, hempty⟩, hpass⟩
    · -- The stream and the file are new.
      obtain ⟨w', hcreate, hgrown, hbytes, -⟩ :=
        @createTransfer_takes env hfaults w u dir view replies path _ _ hpath hl hpass _ _
          (.first hnone hfree rfl) _ _ hcontent hend fun _ => by rw [List.nil_append]
      rw [Stores, hserved, hcreate]
      refine ⟨⟨_, rfl, rfl, rfl⟩, ?_⟩
      show w'.disk.read _ = _
      rw [hpath, Disk.read_toPath hgrown.file, hbytes, Function.update_self, List.nil_append]
    · rw [World.usable_eq, Option.isSome_iff_exists] at husable
      obtain ⟨i, hopen⟩ := husable
      exact (hstale i hopen hpass).mpr hempty

/-! ### The two requests -/

/-- An ERASE that is answered OK has found its entry. -/
theorem erase_of_answered {w : World} {u : User} {dir : Dir} (hready : Transferring u dir)
    {path digest : Bytes} {m : Message} (hm : Erases path digest m)
    (hok : (handleRequest env w u m).Answered .ok .none) :
    ∃ replies, handleRequest env w u m = eraseEntry env w u dir replies path := by
  rcases hfound : dir.rsrc env.hash path with _ | ⟨synced, found⟩
  · obtain ⟨view, hmsg, hfirst, hitem, sign, hsign, hsplit⟩ := hm
    refine absurd hok ?_
    rw [handleRequest_eq_perform]
    simp [taskOf, hmsg, hfirst, check, hready.route, eraseTask, hitem, hsign, hsplit,
      hready.dirPtr, hfound, perform, answered_answer_iff]
  · by_cases hdigest : found = digest
    · subst hdigest
      obtain ⟨replies, htask⟩ := taskOf_erases hm hready hfound
      exact ⟨replies, by rw [handleRequest_eq_perform, htask, perform]⟩
    · obtain ⟨view, hmsg, hfirst, hitem, sign, hsign, hsplit⟩ := hm
      refine absurd hok ?_
      rw [handleRequest_eq_perform]
      simp [taskOf, hmsg, hfirst, check, hready.route, eraseTask, hitem, hsign, hsplit,
        hready.dirPtr, hfound, hdigest, perform, answered_answer_iff]

/-- **When an ERASE lets the path be created again.** For every tree, view, stream and plain path:
a complete CREATE behind an ERASE that was answered OK stores its content if and only if the user
had no stream, or one that works and the content is empty, and no file stood on the way. -/
theorem erase_forgets_iff (hfaults : env.NoFaults) {w : World} {u : User} {dir : Dir}
    (hready : Transferring u dir) (hpath : dir.path = toPath (userDirectory env u)) {path : Path}
    {ns : Loc} (hns : ns ≠ []) (hplain : path = toPath ns ∨ sep :: path = toPath ns)
    {digest : Bytes} {m : Message} (hm : Erases path digest m)
    (hok : (handleRequest env w u m).Answered .ok .none) {content : Bytes} {m' : Message}
    (hm' : Uploads .create path (md5HashString env (path ++ content)) content true m') :
    Stores env (handleRequest env w u m).world (handleRequest env w u m).user m'
        (append dir.path path) content ↔
      (w.streams u.id = none ∨ w.usable u.id = true ∧ content = []) ∧
        ClearsWay w.disk (userDirectory env u) (userDirectory env u ++ ns).dropLast := by
  have hhome := userDirectory_ne_nil env u
  obtain ⟨replies, herase⟩ := erase_of_answered hready hm hok
  rw [herase] at hok ⊢
  obtain ⟨huser, hstreams, hfree, hway⟩ :=
    eraseEntry_erased hfaults hhome hpath hns hplain hok
  generalize eraseEntry env w u dir replies path = o at huser hstreams hfree hway ⊢
  have hready' : Transferring o.user (dir.erase env.hash path).1 := by
    rw [huser]
    exact ⟨hready.auth, hready.synced, rfl⟩
  have hplaced : append (dir.erase env.hash path).1.path path =
      toPath (userDirectory env u ++ ns) := by
    rw [Dir.erase_path, hpath, append_plain hhome hns hplain]
  have hid : o.user.id = u.id := by rw [huser]
  have hiff := create_recreates_iff hfaults hready' hplaced (by simp [hns])
    (by rw [Dir.rsrc_erase, if_pos (sameKey_refl path)]) hfree hm'
  rwa [hway, hid, hstreams, World.usable, hstreams] at hiff

/-- `bobby` erases `/d/e/f` and stores it again. -/
theorem erase_forgets_iff_bobby :
    Stores treeEnv
        (handleRequest treeEnv bobbyTree.world (bobby [entryOfG, entryOfF]) eraseF).world
        (handleRequest treeEnv bobbyTree.world (bobby [entryOfG, entryOfF]) eraseF).user storeF
        (append bobbyPath (ascii "/d/e/f")) (ascii "hi") ↔
      (bobbyTree.world.streams (bobby [entryOfG, entryOfF]).id = none ∨
        bobbyTree.world.usable (bobby [entryOfG, entryOfF]).id = true ∧ ascii "hi" = []) ∧
        ClearsWay bobbyTree.world.disk (userDirectory treeEnv (bobby [entryOfG, entryOfF]))
          (userDirectory treeEnv (bobby [entryOfG, entryOfF]) ++ locOfF).dropLast :=
  @erase_forgets_iff treeEnv (Env.noFaults_ofTables _ _ _ _) bobbyTree.world
    (bobby [entryOfG, entryOfF]) ⟨bobbyPath, [entryOfG, entryOfF]⟩ ⟨rfl, rfl, rfl⟩
    (by decide +kernel) (ascii "/d/e/f") locOfF (by decide) (Or.inl (by decide))
    (ascii "D2D9578230E478546948307B66813926") eraseF
    ⟨_, rfl, rfl, rfl, _, rfl, by decide +kernel⟩ (by decide +kernel) (ascii "hi") storeF
    ⟨_, _, ⟨rfl, rfl, rfl, _, rfl, by decide +kernel⟩, rfl, rfl, by decide +kernel⟩

/-- The ERASE of `/a` between two of its chunks, with the digest of an unfinished entry. -/
def eraseBegunA : Message :=
  encode MsgType.erase.toByte [(TlvType.item.toByte, createSign (ascii "/a") tempDigest)]

/-- The ERASE is answered OK, and the CREATE behind it is not. -/
theorem not_erase_forgets :
    bobbyBegun.sessions 0 = some (bobby [(ascii "/a", ⟨false, tempDigest⟩)]) ∧
      Erases (ascii "/a") tempDigest eraseBegunA ∧
      Uploads .create (ascii "/a")
        (md5HashString (bobbyAndBobEnv [ahi]) (ascii "/a" ++ ascii "hi")) (ascii "hi") true storeA ∧
      (handleRequest (bobbyAndBobEnv [ahi]) bobbyBegun.world
        (bobby [(ascii "/a", ⟨false, tempDigest⟩)]) eraseBegunA).Answered .ok .none ∧
      ¬ Stores (bobbyAndBobEnv [ahi])
        (handleRequest (bobbyAndBobEnv [ahi]) bobbyBegun.world
          (bobby [(ascii "/a", ⟨false, tempDigest⟩)]) eraseBegunA).world
        (handleRequest (bobbyAndBobEnv [ahi]) bobbyBegun.world
          (bobby [(ascii "/a", ⟨false, tempDigest⟩)]) eraseBegunA).user storeA
        (append bobbyPath (ascii "/a")) (ascii "hi") := by
  refine ⟨by decide +kernel, ⟨_, rfl, rfl, rfl, _, rfl, by decide +kernel⟩, uploads_storeA,
    by decide +kernel, fun hstores => ?_⟩
  have hok := hstores.1
  revert hok
  decide +kernel

end RemoteBackup.Proofs
