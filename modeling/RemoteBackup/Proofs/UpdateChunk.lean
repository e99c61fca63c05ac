import RemoteBackup.Proofs.CreateChunk
import RemoteBackup.Proofs.FailedUpload
import RemoteBackup.Proofs.Mirror

/-!
# `RemoteBackup.Proofs.UpdateChunk`: one chunk of an UPDATE

What `handle_update` does to a file on a file system without faults. The chunks go to the temporary
file, which is opened for appending, so what it held before stays in front of them.

* `Drafts`: how the user's stream and the temporary file stand between two chunks.
* `drafted`: a chunk is written to the temporary file or its stream's buffer.
* `renamed_closed`, `renamed_sameBut`: the last chunk closes the stream and moves the temporary
  file.
* `updateTransfer_drafts`: the handler.
-/

set_option autoImplicit false

namespace RemoteBackup.Proofs

open Lib

variable {env : Env} {w : World} {id bytes : Bytes} {l : Loc}

/-- How the stream and the temporary file at `l` stand between two chunks: there is neither, there
is a file from before, or the stream writes to the file. `bytes` are in the file and the buffer. -/
inductive Drafts (w : World) (id : Bytes) (l : Loc) : Bytes → Prop
  | new (hnone : w.streams id = none) (hfree : w.disk.Free l) : Drafts w id l []
  | leftover (hnone : w.streams id = none) (i : Nat) (hfile : w.disk.node l = some (.file i)) :
      Drafts w id l (w.disk.content i)
  | later (i : Nat) (hopen : w.openOn id = some i) (hfile : w.disk.node l = some (.file i)) :
      Drafts w id l (w.settled id i)

/-- The temporary file is opened, and holds what it held. -/
theorem opened_drafts (hfaults : env.NoFaults) (h : Drafts w id l bytes) :
    ∃ i, PutsFile w (opened env w id (toPath l)) l i ∧
      (opened env w id (toPath l)).openOn id = some i ∧
      (opened env w id (toPath l)).settled id i = bytes := by
  have hopens := openStream_of_noFaults hfaults w (toPath l)
  have hdisk := opened_disk_of_noFaults hfaults w id (toPath l)
  have hpending := opened_pendingOf env w id (toPath l)
  cases h with
  | new hnone hfree =>
      rw [Disk.openAppend_free hfree] at hopens hdisk
      obtain ⟨hputs, hopen⟩ := opened_puts hnone hopens
      refine ⟨_, hputs, hopen, ?_⟩
      rw [World.settled, if_pos hopen, hpending, hdisk, Disk.addFile_content hfree,
        Function.update_self, World.pendingOf, hnone]
      rfl
  | leftover hnone i hfile =>
      rw [Disk.openAppend_file hfile] at hopens hdisk
      obtain ⟨hputs, hopen⟩ := opened_puts hnone hopens
      refine ⟨_, hputs, hopen, ?_⟩
      rw [World.settled, if_pos hopen, hpending, hdisk, World.pendingOf, hnone, List.append_nil]
  | later i hopen hfile =>
      rw [Disk.openAppend_file hfile] at hdisk
      -- The file is opened once more, and the stream that writes to it is kept.
      have hopen' : (opened env w id (toPath l)).openOn id = w.openOn id := by
        rcases w.getStream_cases env id (toPath l) with ⟨-, -, hstreams⟩ | ⟨hnone, -, -⟩
        · exact openOn_congr hstreams
        · rw [noStream_openOn hnone] at hopen
          exact absurd hopen (by simp)
      refine ⟨i, .stays hfile hdisk, hopen'.trans hopen, ?_⟩
      rw [World.settled, World.settled, hopen', hpending, hdisk]

/-- A chunk is written behind what the temporary file holds. -/
theorem drafted (hfaults : env.NoFaults) (h : Drafts w id l bytes) (content : Bytes) :
    (opened env w id (toPath l)).usable id = true ∧
      ∃ i, PutsFile w (written env (opened env w id (toPath l)) id content false) l i ∧
        (written env (opened env w id (toPath l)) id content false).openOn id = some i ∧
        (written env (opened env w id (toPath l)) id content false).settled id i =
          bytes ++ content := by
  obtain ⟨i, hputs, hopen, hsettled⟩ := opened_drafts hfaults h
  have hframe := written_frame env (opened env w id (toPath l)) id content false
  refine ⟨by rw [World.usable_eq, hopen]; rfl, i, hputs.grow hopen hframe,
    hframe.openOn.trans hopen, ?_⟩
  rw [written, if_neg (by simp), World.write_settled, hsettled, if_pos hopen]

/-- The stream is closed, the old file goes, and the temporary file comes in its place. -/
theorem renamed_closed (hfaults : env.NoFaults) {i j : Nat}
    (htemp : tempPath (toPath l) = toPath (draft l)) (hne : draft l ≠ l)
    (hdraft : w.disk.node (draft l) = some (.file i)) (hfile : w.disk.node l = some (.file j)) :
    ((closed w id).remove env (toPath l)).2 = true ∧
      ((removed env (closed w id) (toPath l)).rename env (tempPath (toPath l)) (toPath l)).2 =
        true ∧
      (∀ k, (renamed env (closed w id) (toPath l)).disk.node k =
        if k = l then some (.file i) else if k = draft l then none else w.disk.node k) ∧
      (renamed env (closed w id) (toPath l)).disk.content = w.settled id ∧
      (renamed env (closed w id) (toPath l)).streams = (closed w id).streams := by
  have hclosed : (closed w id).disk.node = w.disk.node := World.closed_node w id
  have hlocate : (closed w id).disk.locate (toPath l) = some l :=
    Disk.locate_toPath_of_node (by rw [hclosed, hfile]; simp)
  rw [← hclosed] at hfile hdraft
  have hremove : ((closed w id).remove env (toPath l)).2 = true := by
    rw [(World.remove_of_file hlocate hfile).1, hfaults]
    rfl
  have hgone : (removed env (closed w id) (toPath l)).disk.node =
      Function.update (closed w id).disk.node l none := World.remove_node hlocate hfile hremove
  -- The rename finds its place free.
  have hfree : (removed env (closed w id) (toPath l)).disk.Free l := by
    have hl := Disk.ne_nil_of_file hfile
    refine ⟨hl, by rw [hgone, Function.update_self], ?_⟩
    rw [hgone, Function.update_of_ne (Disk.dropLast_ne_self hl)]
    exact (closed w id).disk.parent_dir l hl (by rw [hfile]; simp)
  have hrename : ((removed env (closed w id) (toPath l)).rename env (tempPath (toPath l))
      (toPath l)).2 = true := by
    have hsrc : (removed env (closed w id) (toPath l)).disk.node (draft l) = some (.file i) := by
      rw [hgone, Function.update_of_ne hne, hdraft]
    rw [World.rename, hfaults, htemp]
    exact (Disk.rename_file hsrc hfree).1
  refine ⟨hremove, hrename, ?_, ?_, ?_⟩
  · rw [← hclosed]
    exact renamed_node htemp hne hdraft hfile hremove hrename
  · rw [renamed, World.rename_content, removed, World.remove_content, closed, World.closed_content]
  · rw [renamed, World.rename_streams, removed, World.remove_streams]

/-- The files at other places keep what they hold. -/
theorem renamed_sameBut (hfaults : env.NoFaults) {i j : Nat}
    (htemp : tempPath (toPath l) = toPath (draft l)) (hne : draft l ≠ l)
    (hdraft : w.disk.node (draft l) = some (.file i)) (hfile : w.disk.node l = some (.file j))
    (hopen : w.openOn id = some i) :
    Disk.SameBut [l, draft l] w.disk (renamed env (closed w id) (toPath l)).disk := by
  obtain ⟨-, -, hnode, hbytes, -⟩ := @renamed_closed env w id l hfaults i j htemp hne hdraft hfile
  intro k m hk
  have hkl : k ≠ l ∧ k ≠ draft l := by simpa using hk
  constructor
  · rw [hnode, if_neg hkl.1, if_neg hkl.2]
  · intro hm
    -- What the stream held back has gone to the temporary file alone.
    have hother : w.openOn id ≠ some m := by
      rw [hopen]
      rintro ⟨rfl⟩
      exact hkl.2 (w.disk.no_links k _ i hm hdraft)
    rw [hbytes, World.settled, if_neg hother, List.append_nil]

/-- The handler, for a file at `l` with the stream and the temporary file as they stand between two
chunks. -/
theorem updateTransfer_drafts (hfaults : env.NoFaults) {u : User} {dir : Dir} {view : TlvView}
    {replies : MessageQueue} {path digest oldDigest : Bytes}
    (hpath : append dir.path path = toPath l) (htemp : tempPath (toPath l) = toPath (draft l))
    (hne : draft l ≠ l) {j : Nat} (hfile : w.disk.node l = some (.file j))
    (hdrafts : Drafts w u.id (draft l) bytes) {content : Bytes} {isLast : Bool}
    (hcontent : view.value = .ok content) (hend : view.verifyEnd = .ok isLast) :
    ∃ w' i, PutsFile w w' (draft l) i ∧ w'.openOn u.id = some i ∧
      w'.settled u.id i = bytes ++ content ∧
      updateTransfer env w u dir view replies path digest oldDigest =
        let dir' := noteChunk env dir path
          (chunkResource (w.streams u.id).isNone isLast digest oldDigest)
        if isLast then
          checkDigest env (renamed env (closed w' u.id) (toPath l)) u dir' replies (toPath l) path
            digest .updateNoMatch .updateFailed
        else answer w' { u with dir := some dir' } replies .ok .none := by
  obtain ⟨husable, i, hputs, hopen, hsettled⟩ := drafted hfaults hdrafts content
  rw [← htemp] at husable hputs hopen hsettled
  refine ⟨_, i, hputs, hopen, hsettled, ?_⟩
  rw [updateTransfer_eq, hpath, writeChunk_usable husable hcontent hend]
  have hfile' := (hputs.files l j).mpr (Or.inl hfile)
  have hdraft := (hputs.files (draft l) i).mpr (Or.inr ⟨rfl, rfl⟩)
  obtain ⟨hremove, hrename, -⟩ := @renamed_closed env _ u.id l hfaults i j htemp hne hdraft hfile'
  dsimp only
  rw [updateFinish_eq hremove hrename]

/-- A directory in the place of the temporary file. -/
theorem updateTransfer_dir (hfaults : env.NoFaults) {u : User} {dir : Dir} {view : TlvView}
    {replies : MessageQueue} {path digest oldDigest : Bytes}
    (hpath : append dir.path path = toPath l) (htemp : tempPath (toPath l) = toPath (draft l))
    (hnone : w.streams u.id = none) (hdir : w.disk.node (draft l) = some .dir) :
    ¬ (updateTransfer env w u dir view replies path digest oldDigest).Answered .ok .none := by
  have hends := updateTransfer_ends env w u dir view replies path digest oldDigest
  rw [hpath, htemp] at hends
  have husable : (opened env w u.id (toPath (draft l))).usable u.id = false := by
    rw [Bool.eq_false_iff, ne_eq, opened_usable_iff_opens hnone, openStream_of_noFaults hfaults,
      Disk.openAppend_dir hdir]
    simp
  generalize updateTransfer env w u dir view replies path digest oldDigest = o at hends ⊢
  cases hends with
  | noStream => exact not_answered_error
  | badContent hyes => exact absurd (husable.symm.trans hyes) (by simp)
  | badEnd hyes => exact absurd (husable.symm.trans hyes) (by simp)
  | stored hyes => exact absurd (husable.symm.trans hyes) (by simp)
  | last hyes => exact absurd (husable.symm.trans hyes) (by simp)

end RemoteBackup.Proofs
