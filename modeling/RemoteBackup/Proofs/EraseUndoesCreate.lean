import RemoteBackup.Proofs.ChunkedCreate
import RemoteBackup.Proofs.EraseTree

/-!
# `RemoteBackup.Proofs.EraseUndoesCreate`: a CREATE and an ERASE of the same file

The directories that `create_directories` makes on the way in are those that the loop of ERASE
removes on the way out, but for the user's own, at which the loop stops.

* `erase_undoes_create`: when the user's directory is there, the two requests give back the tree,
  the view and the streams.
* `not_erase_undoes_create`: a session whose own directory is gone. The CREATE makes it, and the
  ERASE leaves it behind.
-/

set_option autoImplicit false

namespace RemoteBackup.Proofs

open Lib

/-- A path that a session can begin to create. The directories on the way to it that lie below the
user's own are not empty. -/
structure Absent (env : Env) (w : World) (u : User) (dir : Dir) (path : Path) (ns : Loc) : Prop
    extends NewPath env w u dir path ns where
  full : ∀ k, userDirectory env u <+: k → k ≠ userDirectory env u →
    k <+: userDirectory env u ++ ns → w.disk.node k ≠ none → w.disk.children k ≠ []

/-- The two requests were answered OK, and everything is as it was: the directories and files, the
view, and the streams. -/
structure Undone (w : World) (u : User) (o o' : Outcome) : Prop where
  created : o.Answered .ok .none
  erased : o'.Answered .ok .none
  tree : o'.world.disk.node = w.disk.node
  bytes : ∀ l i, w.disk.node l = some (.file i) → o'.world.disk.content i = w.disk.content i
  user : o'.user = u
  streams : o'.world.streams = w.streams

/-- An entry that a CREATE puts into the view and an ERASE takes out again. -/
theorem filter_noteChunk {env : Env} {dir : Dir} {path : Path} {r : Resource}
    (h : dir.rsrc env.hash path = none) :
    (noteChunk env dir path (some r)).content.filter (fun e => ¬ sameKey env.hash e.1 path) =
      dir.content := by
  have hnew : ∀ e ∈ dir.content, ¬ sameKey env.hash e.1 path := by
    rw [Dir.rsrc, Option.map_eq_none_iff, List.find?_eq_none] at h
    simpa using h
  have hfree : dir.contains env.hash path = false := by
    simpa [Dir.contains] using hnew
  simp only [noteChunk, Dir.insertOrAssign, hfree, Bool.false_eq_true, if_false]
  rw [List.filter_append, List.filter_eq_self.mpr (by simpa using hnew)]
  simp [sameKey_refl]

/-- **ERASE undoes CREATE**, when the user's directory is there. For every tree, view, plain path
and content: a complete CREATE and an ERASE with the same sign are answered OK and give back
everything as it was. -/
theorem erase_undoes_create {env : Env} (hfaults : env.NoFaults) {w : World} {u : User} {dir : Dir}
    {path : Path} {ns : Loc} (h : Absent env w u dir path ns)
    (hhome : w.disk.node (userDirectory env u) = some .dir) {content : Bytes} {m m' : Message}
    (hm : Uploads .create path (md5HashString env (path ++ content)) content true m)
    (hm' : Erases path (md5HashString env (path ++ content)) m') :
    Undone w u (handleRequest env w u m)
      (handleRequest env (handleRequest env w u m).world (handleRequest env w u m).user m') := by
  have hd := userDirectory_ne_nil env u
  obtain ⟨view, replies, htask, hcontent, hend⟩ := @taskOf_creates env u dir _ _ _ _ _ hm h.ready
    (by simp [h.entry])
  obtain ⟨w', hcreate, hgrown, hbytes, hstreams⟩ :=
    @createTransfer_takes env hfaults w u dir view replies path _ _ h.placed h.ne_nil h.way _ _
      (.first h.stream h.free rfl) _ _ hcontent hend fun _ => by rw [List.nil_append]
  have hcreated : handleRequest env w u m = answer w' { u with dir := some (noteChunk env dir path
      (some ⟨true, md5HashString env (path ++ content)⟩)) } replies .ok .none := by
    rw [handleRequest_eq_perform, htask, perform, hcreate, chunkResource_last]
  have hready : Transferring (handleRequest env w u m).user (noteChunk env dir path
      (some ⟨true, md5HashString env (path ++ content)⟩)) := by
    rw [hcreated]
    exact ⟨h.ready.auth, h.ready.synced, rfl⟩
  have hfile : (handleRequest env w u m).world.disk.node (userDirectory env u ++ ns) =
      some (.file w.disk.next) := by
    rw [hcreated]
    exact hgrown.file
  have hexact := request_erases hfaults hready hd ((noteChunk_path env dir path _).trans h.path_eq)
    h.components h.plain hfile (by rw [noteChunk_rsrc, if_pos (sameKey_refl path)]) hm'
  rw [hcreated] at hexact ⊢
  constructor
  case created => exact ⟨_, rfl, rfl, rfl⟩
  case erased => exact hexact.answered
  case tree =>
    exact hgrown.undone h.free (h.way.of_free h.free) hhome (List.prefix_append _ _) h.full
      hexact.gone hexact.kept
  case bytes =>
    intro l i hi
    -- The new file has a number of its own.
    have hne : i ≠ w.disk.next := Nat.ne_of_lt (w.disk.fresh l i hi)
    rw [hexact.bytes]
    show w'.disk.content i = _
    rw [hbytes, Function.update_of_ne hne]
  case user =>
    rw [hexact.entries, filter_noteChunk h.entry, noteChunk_path]
    show { u with dir := some dir } = u
    rw [← h.ready.view]
  case streams =>
    rw [hexact.streams]
    show w'.streams = _
    rw [hstreams, if_pos rfl, ← h.stream, Function.update_eq_self]

/-- The ERASE of `/a` with the sign of `storeA`. -/
def eraseA : Message :=
  encode MsgType.erase.toByte [(TlvType.item.toByte,
    createSign (ascii "/a") (ascii "1D6677F1499CDF9D69169C4083605DE9"))]

/-- `storeA` uploads `/a` in one chunk. -/
theorem uploads_storeA :
    Uploads .create (ascii "/a")
      (md5HashString (bobbyAndBobEnv [ahi]) (ascii "/a" ++ ascii "hi")) (ascii "hi") true storeA :=
  ⟨_, _, ⟨rfl, rfl, rfl, _, rfl, by decide +kernel⟩, rfl, rfl, by decide +kernel⟩

/-- `eraseA` erases it. -/
theorem erases_eraseA :
    Erases (ascii "/a") (md5HashString (bobbyAndBobEnv [ahi]) (ascii "/a" ++ ascii "hi")) eraseA :=
  ⟨_, rfl, rfl, rfl, _, rfl, by decide +kernel⟩

/-- `/a` is next to the root of `bobby`'s view, so nothing stands between them. -/
theorem absent_bobby {w : World}
    (h : NewPath (bobbyAndBobEnv [ahi]) w (bobby []) ⟨bobbyPath, []⟩ (ascii "/a")
      [⟨ascii "a", by decide⟩]) :
    Absent (bobbyAndBobEnv [ahi]) w (bobby []) ⟨bobbyPath, []⟩ (ascii "/a")
      [⟨ascii "a", by decide⟩] where
  toNewPath := h
  full := by
    intro k hbelow hne hk hnode
    rw [Disk.eq_of_between hbelow hne hk] at hnode
    exact absurd h.free hnode

/-- `bobby` has `/d/g`, and stores `/d/e/f` and erases it. The CREATE makes the directory `/d/e`,
and the ERASE removes it. -/
theorem erase_undoes_create_bobby :
    Undone bobbyWithG.world (bobby [entryOfG])
      (handleRequest treeEnv bobbyWithG.world (bobby [entryOfG]) storeF)
      (handleRequest treeEnv
        (handleRequest treeEnv bobbyWithG.world (bobby [entryOfG]) storeF).world
        (handleRequest treeEnv bobbyWithG.world (bobby [entryOfG]) storeF).user eraseF) := by
  refine @erase_undoes_create treeEnv (Env.noFaults_ofTables _ _ _ _) bobbyWithG.world
    (bobby [entryOfG]) ⟨bobbyPath, [entryOfG]⟩ (ascii "/d/e/f") locOfF ?_ (by decide +kernel)
    (ascii "hi") storeF eraseF
    ⟨_, _, ⟨rfl, rfl, rfl, _, rfl, by decide +kernel⟩, rfl, rfl, by decide +kernel⟩
    ⟨_, rfl, rfl, rfl, _, rfl, by decide +kernel⟩
  have hway : ∀ k ∈ (userDirectory treeEnv (bobby [entryOfG]) ++ locOfF.take 2).inits,
      bobbyWithG.world.disk.node k = none ∨ bobbyWithG.world.disk.node k = some .dir := by
    decide +kernel
  have hfull : ∀ k ∈ (userDirectory treeEnv (bobby [entryOfG]) ++ locOfF).inits,
      userDirectory treeEnv (bobby [entryOfG]) <+: k →
      k ≠ userDirectory treeEnv (bobby [entryOfG]) → bobbyWithG.world.disk.node k ≠ none →
      bobbyWithG.world.disk.children k ≠ [] := by decide +kernel
  exact {
    ready := ⟨rfl, rfl, rfl⟩
    path_eq := by decide +kernel
    stream := by decide +kernel
    components := by decide
    plain := Or.inl (by decide)
    entry := by decide +kernel
    free := by decide +kernel
    way := by
      rw [show locOfF = locOfF.take 2 ++ locOfF.drop 2 by rfl, ← List.append_assoc]
      exact Disk.passable_concat fun k hk => hway k ((List.mem_inits _ _).mpr hk)
    full := fun k hbelow hne hk => hfull k ((List.mem_inits _ _).mpr hk) hbelow hne }

/-- A path that goes up from `bobby`'s directory and down to it again. -/
def roundabout : Path := ascii "/../F5CEC4A9E67057735BC2B7577B80CB9D/b"

/-- `bobby` stores a file under that path and erases it. The loop does not know the directory by
its other name, and removes it. -/
def bobbyHomeless : Server :=
  run (Server.step (bobbyAndBobEnv [ahi])) (Server.start bobbyWorld) (bobbyLogin ++
    [.request 0 (chunk .create roundabout (ascii "00000000000000000000000000000000") [] true),
      .request 0 (encode MsgType.erase.toByte [(TlvType.item.toByte,
        createSign roundabout (ascii "00000000000000000000000000000000"))])])

/-- The CREATE of `/a` makes `bobby`'s directory again, and the ERASE leaves it there. -/
theorem not_erase_undoes_create :
    bobbyHomeless.sessions 0 = some (bobby []) ∧
      Absent (bobbyAndBobEnv [ahi]) bobbyHomeless.world (bobby []) ⟨bobbyPath, []⟩ (ascii "/a")
        [⟨ascii "a", by decide⟩] ∧
      Uploads .create (ascii "/a")
        (md5HashString (bobbyAndBobEnv [ahi]) (ascii "/a" ++ ascii "hi")) (ascii "hi") true storeA ∧
      Erases (ascii "/a")
        (md5HashString (bobbyAndBobEnv [ahi]) (ascii "/a" ++ ascii "hi")) eraseA ∧
      ¬ Undone bobbyHomeless.world (bobby [])
        (handleRequest (bobbyAndBobEnv [ahi]) bobbyHomeless.world (bobby []) storeA)
        (handleRequest (bobbyAndBobEnv [ahi])
          (handleRequest (bobbyAndBobEnv [ahi]) bobbyHomeless.world (bobby []) storeA).world
          (handleRequest (bobbyAndBobEnv [ahi]) bobbyHomeless.world (bobby []) storeA).user
          eraseA) := by
  refine ⟨by decide +kernel, absent_bobby (newPath_bobby (by decide +kernel)
    (by decide +kernel) (by decide +kernel)), uploads_storeA, erases_eraseA, fun hundone => ?_⟩
  have htree := congrFun hundone.tree (userDirectory (bobbyAndBobEnv [ahi]) (bobby []))
  revert htree
  decide +kernel

end RemoteBackup.Proofs
