import RemoteBackup.Lib.Prune
import RemoteBackup.Proofs.Confinement
import RemoteBackup.Proofs.ExitFree
import RemoteBackup.Proofs.SignedTasks

/-!
# `RemoteBackup.Proofs.EraseTree`: what an ERASE removes from the tree

`handle_erase` removes the file and then climbs, as long as it stands in an empty directory and
not at the user's own. On a file system without faults the climb is that of `Lib.Prune`.

* `cleanup_climbs`: the loop, by induction up the path.
* `eraseEntry_exact`: the file and the loop.
* `erase_removes_exactly`: the request.
-/

set_option autoImplicit false

namespace RemoteBackup.Proofs

open Lib

/-- How many of these calls were to remove something. -/
def removals (calls : List FsCall) : Nat :=
  calls.countP fun call => match call with
    | .remove _ => true
    | _ => false

/-- What a `remove` on a file system without faults does. -/
theorem remove_of_noFaults {env : Env} (hfaults : env.NoFaults) {w : World} {p : Path}
    (h : (w.disk.remove p).2 = true) :
    w.remove env p = (removed env w p, true) ∧ (removed env w p).disk = (w.disk.remove p).1 :=
  ⟨eq_of_snd (remove_iff.mpr ⟨hfaults _ _, h⟩), remove_disk (hfaults _ _)⟩

/-- What a round of the loop does in a directory below the user's. -/
theorem cleanup_succ {env : Env} (hfaults : env.NoFaults) {home ms : Loc} {n : Name} (fuel : Nat)
    (w : World) :
    cleanup env (toPath home) (fuel + 1) w (toPath (home ++ ms ++ [n])) =
      if w.disk.isEmpty (toPath (home ++ ms ++ [n])) = some true then
        match (w.record (.isEmpty (toPath (home ++ ms ++ [n])))).remove env
            (toPath (home ++ ms ++ [n])) with
        | (w, true) => cleanup env (toPath home) fuel w (toPath (home ++ ms))
        | (w, false) => w
      else w.record (.isEmpty (toPath (home ++ ms ++ [n]))) := by
  have hat : elements (toPath (home ++ ms ++ [n])) ≠ elements (toPath home) := by
    rw [elements_toPath, elements_toPath]
    intro h
    have hlength := congrArg List.length h
    simp at hlength
  rw [cleanup, if_neg hat, parentPath_toPath]
  simp only [World.isEmpty, hfaults w.calls, Bool.false_eq_true, if_false]
  rcases w.disk.isEmpty (toPath (home ++ ms ++ [n])) with _ | _ | _
  · simp
  · simp
  · rfl

/-- The loop climbs as long as it stands in a directory that holds nothing but the path, and ends
within as many rounds as there are directories. Induction up the path. -/
theorem cleanup_climbs {env : Env} (hfaults : env.NoFaults) {d : Disk} {home l : Loc}
    (hl : d.node l ≠ none) (ms : Loc) (hml : home ++ ms <+: l) (hne : home ++ ms ≠ l) {w : World}
    (h : d.Cleared l (home ++ ms) w.disk) :
    ∃ w' m, (∀ fuel, ms.length < fuel →
        cleanup env (toPath home) fuel w (toPath (home ++ ms)) = w') ∧
      home <+: m ∧ m <+: home ++ ms ∧ d.Cleared l m w'.disk ∧ (m = home ∨ ¬ d.Alone l m) ∧
      w'.streams = w.streams ∧
      ∃ new, w'.calls = new ++ w.calls ∧ removals new ≤ ms.length := by
  induction ms using List.reverseRecOn generalizing w with
  | nil =>
      rw [List.append_nil] at h hml ⊢
      refine ⟨w, home, fun fuel hfuel => ?_, List.prefix_refl _, List.prefix_refl _, h, Or.inl rfl,
        rfl, [], rfl, Nat.le_refl 0⟩
      -- At the user's own directory it stops.
      obtain ⟨fuel, rfl⟩ : ∃ k, fuel = k + 1 := ⟨fuel - 1, by omega⟩
      rw [cleanup, if_pos rfl]
  | append_singleton ms n ih =>
      rw [← List.append_assoc] at h hml hne ⊢
      have hempty := h.isEmpty_iff hml hne hl
      by_cases halone : d.Alone l (home ++ ms ++ [n])
      · -- The directory goes, and the loop goes on with its parent.
        obtain ⟨hremove, hcleared⟩ := h.next hml hne hl halone
        obtain ⟨hgone, hdisk⟩ := @remove_of_noFaults env hfaults
          (w.record (.isEmpty (toPath (home ++ ms ++ [n])))) _ hremove
        rw [← World.record_disk w (.isEmpty (toPath (home ++ ms ++ [n]))), ← hdisk] at hcleared
        have hparent : home ++ ms <+: l := (List.prefix_append _ _).trans hml
        have hparentne : home ++ ms ≠ l := fun heq => by
          have hlength := hml.length_le
          rw [← heq, List.length_append, List.length_singleton] at hlength
          omega
        obtain ⟨w', m, hloop, hm, hm', hfinal, hend, hstreams, new, hcalls, hcount⟩ :=
          ih hparent hparentne hcleared
        refine ⟨w', m, fun fuel hfuel => ?_, hm, hm'.trans (List.prefix_append _ _), hfinal, hend,
          ?_, new ++ [.remove (toPath (home ++ ms ++ [n])), .isEmpty (toPath (home ++ ms ++ [n]))],
          ?_, ?_⟩
        · obtain ⟨fuel, rfl⟩ : ∃ k, fuel = k + 1 := ⟨fuel - 1, by omega⟩
          rw [cleanup_succ hfaults, if_pos (hempty.mpr halone), hgone]
          exact hloop fuel (by simp at hfuel; omega)
        · exact hstreams.trans (World.remove_streams env _ _)
        · simp only [hcalls, removed, World.remove_calls, World.record_calls, List.append_assoc,
            List.cons_append, List.nil_append]
        · rw [removals, List.countP_append]
          simpa [removals] using hcount
      · -- Something else is in the directory, and the loop ends.
        refine ⟨w.record (.isEmpty (toPath (home ++ ms ++ [n]))), home ++ ms ++ [n],
          fun fuel hfuel => ?_, ?_, List.prefix_refl _, h, Or.inr halone, rfl, [_], rfl,
          by simp [removals]⟩
        · obtain ⟨fuel, rfl⟩ : ∃ k, fuel = k + 1 := ⟨fuel - 1, by omega⟩
          rw [cleanup_succ hfaults, if_neg fun hyes => halone (hempty.mp hyes)]
        · rw [List.append_assoc]
          exact List.prefix_append _ _

/-! ### The request -/

/-- What an ERASE of `path` is to do, whose file stands at `home ++ ns`: it is answered OK, and the
entry and the file are gone. Of the directories those are gone that lie below `home` on the path to
the file and held nothing else. The other entries, directories and files are as before. The loop
ends within as many rounds as the path has components, and removes at most one directory less. -/
structure ErasedExactly (env : Env) (w : World) (u : User) (dir : Dir) (path : Path)
    (home ns : Loc) (o : Outcome) : Prop where
  answered : o.Answered .ok .none
  entries : o.user = { u with
    dir := some ⟨dir.path, dir.content.filter fun e => ¬ sameKey env.hash e.1 path⟩ }
  file : o.world.disk.node (home ++ ns) = none
  gone : ∀ k, w.disk.Emptied home (home ++ ns) k → o.world.disk.node k = none
  kept : ∀ k, ¬ w.disk.Emptied home (home ++ ns) k → o.world.disk.node k = w.disk.node k
  bytes : o.world.disk.content = w.disk.content
  streams : o.world.streams = w.streams
  rounds : ∀ fuel, ns.length ≤ fuel → cleanup env dir.path fuel
    (removed env w (toPath (home ++ ns))) (parentPath (toPath (home ++ ns))) = o.world
  removals : ∃ new, o.world.calls = new ++ .remove (toPath (home ++ ns)) :: w.calls ∧
    removals new ≤ ns.length - 1

/-- The handler from the removal of the file on. -/
theorem eraseEntry_exact {env : Env} (hfaults : env.NoFaults) {w : World} {u : User} {dir : Dir}
    {replies : MessageQueue} {path : Path} {home ns : Loc} (hhome : home ≠ [])
    (hpath : dir.path = toPath home) (hns : ns ≠ [])
    (hplain : path = toPath ns ∨ sep :: path = toPath ns)
    {i : Nat} (hfile : w.disk.node (home ++ ns) = some (.file i))
    (hkey : dir.contains env.hash path = true) :
    ErasedExactly env w u dir path home ns (eraseEntry env w u dir replies path) := by
  have habsolute : append dir.path path = toPath (home ++ ns) := by
    rw [hpath, append_plain hhome hns hplain]
  obtain ⟨ms, n, rfl⟩ := (List.eq_nil_or_concat' ns).resolve_left hns
  rw [← List.append_assoc] at hfile habsolute
  obtain ⟨hremove, hcleared⟩ := Disk.cleared_remove hfile
  obtain ⟨hgone, hdisk⟩ := remove_of_noFaults hfaults hremove
  rw [← hdisk] at hcleared
  have hbelow : home ++ ms <+: home ++ ms ++ [n] := List.prefix_append _ _
  obtain ⟨w', m, hloop, hm, hml, hfinal, hend, hstreams, new, hcalls, hcount⟩ :=
    cleanup_climbs hfaults (by rw [hfile]; simp) ms hbelow (by simp) hcleared
  have hemptied := hfinal.emptied hm (hml.trans hbelow) hend
  -- The loop has a round for each byte of its path, and a path has no more names than bytes.
  have hfuel : ms.length < (toPath (home ++ ms)).length + 1 := by
    have hlength := length_le_toPath (home ++ ms)
    rw [List.length_append] at hlength
    omega
  have hresult : eraseEntry env w u dir replies path =
      answer w' { u with dir := some (dir.erase env.hash path).1 } replies .ok .none := by
    simp only [eraseEntry, habsolute, hgone, parentPath_toPath]
    rw [hpath, hloop _ hfuel]
    simp [Dir.erase, hkey]
  rw [hresult]
  constructor
  case answered => exact ⟨_, rfl, rfl, rfl⟩
  case entries => rfl
  case file =>
    rw [← List.append_assoc]
    refine (hfinal.gone _ (hml.trans hbelow) (fun heq => ?_) (List.prefix_refl _)).1
    have hlength := hml.length_le
    rw [← heq, List.length_append, List.length_singleton] at hlength
    omega
  case gone =>
    rw [← List.append_assoc]
    exact fun k => (hemptied k).1
  case kept =>
    rw [← List.append_assoc]
    exact fun k => (hemptied k).2
  case bytes => exact hfinal.content.trans rfl
  case streams => exact hstreams.trans (World.remove_streams env _ _)
  case rounds =>
    intro fuel hfuel
    rw [hpath, ← List.append_assoc, parentPath_toPath]
    rw [List.length_append, List.length_singleton] at hfuel
    exact hloop fuel hfuel
  case removals =>
    refine ⟨new, ?_, by simpa using hcount⟩
    rw [answer, hcalls, removed, World.remove_calls, List.append_assoc]

/-- A path with an entry is in the map. -/
theorem contains_of_rsrc {hash : Bytes → UInt64} {dir : Dir} {path : Path} {r : Resource}
    (h : dir.rsrc hash path = some r) : dir.contains hash path = true := by
  obtain ⟨e, he, -⟩ := Option.map_eq_some_iff.mp h
  exact List.any_eq_true.mpr
    ⟨e, List.mem_of_find?_eq_some he, (List.find?_eq_some_iff_append.mp he).1⟩

/-- The request, for a session with a view of `home`. -/
theorem request_erases {env : Env} (hfaults : env.NoFaults) {w : World} {u : User} {dir : Dir}
    (hready : Transferring u dir) {home ns : Loc} (hhome : home ≠ [])
    (hpath : dir.path = toPath home) (hns : ns ≠ []) {path : Path}
    (hplain : path = toPath ns ∨ sep :: path = toPath ns) {i : Nat}
    (hfile : w.disk.node (home ++ ns) = some (.file i)) {synced : Bool} {digest : Bytes}
    (hentry : dir.rsrc env.hash path = some ⟨synced, digest⟩) {m : Message}
    (hm : Erases path digest m) :
    ErasedExactly env w u dir path home ns (handleRequest env w u m) := by
  obtain ⟨replies, htask⟩ := taskOf_erases hm hready hentry
  rw [handleRequest_eq_perform, htask, perform]
  exact eraseEntry_exact hfaults hhome hpath hns hplain hfile (contains_of_rsrc hentry)

/-- **An ERASE removes exactly the file and the directories that it empties.** For every tree, every
plain path and every entry, on a file system without faults. -/
theorem erase_removes_exactly {env : Env} (hfaults : env.NoFaults) {w : World} {u : User}
    {dir : Dir} (hready : Transferring u dir) (hpath : dir.path = toPath (userDirectory env u))
    {path : Path} {ns : Loc} (hns : ns ≠ []) (hplain : path = toPath ns ∨ sep :: path = toPath ns)
    {i : Nat} (hfile : w.disk.node (userDirectory env u ++ ns) = some (.file i))
    {synced : Bool} {digest : Bytes} (hentry : dir.rsrc env.hash path = some ⟨synced, digest⟩)
    {m : Message} (hm : Erases path digest m) :
    ErasedExactly env w u dir path (userDirectory env u) ns (handleRequest env w u m) :=
  request_erases hfaults hready (userDirectory_ne_nil env u) hpath hns hplain hfile hentry hm

/-- The ERASE of `/d/e/f`. -/
def eraseF : Message :=
  encode MsgType.erase.toByte [(TlvType.item.toByte,
    createSign (ascii "/d/e/f") (ascii "D2D9578230E478546948307B66813926"))]

/-- The components of `/d/e/f`. -/
def locOfF : Loc := [⟨ascii "d", by decide⟩, ⟨ascii "e", by decide⟩, ⟨ascii "f", by decide⟩]

/-- `bobby` erases `/d/e/f`. The directory `/d/e` goes with it, and `/d`, which holds `/d/g`,
stays. -/
theorem erase_removes_exactly_bobby :
    ErasedExactly treeEnv bobbyTree.world (bobby [entryOfG, entryOfF])
      ⟨bobbyPath, [entryOfG, entryOfF]⟩ (ascii "/d/e/f") (userDirectory treeEnv (bobby [])) locOfF
      (handleRequest treeEnv bobbyTree.world (bobby [entryOfG, entryOfF]) eraseF) :=
  @erase_removes_exactly _ (Env.noFaults_ofTables _ _ _ _) _ _ _ ⟨rfl, rfl, rfl⟩ (by decide +kernel)
    _ _ (by decide) (Or.inl (by decide)) 1 (by decide +kernel) true
    (ascii "D2D9578230E478546948307B66813926") (by decide +kernel) _
    ⟨_, rfl, rfl, rfl, _, rfl, by decide +kernel⟩

end RemoteBackup.Proofs
