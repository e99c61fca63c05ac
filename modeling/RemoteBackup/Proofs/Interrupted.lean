import RemoteBackup.Proofs.ChunkedUpdate
import RemoteBackup.Proofs.StoreSteps
import RemoteBackup.Proofs.Stepwise

/-!
# `RemoteBackup.Proofs.Interrupted`: an upload between two of its calls

`RemoteBackup.Core.Stepwise` has the calls that a CREATE or an UPDATE makes. The process can end
between any two of them. Here is what the tree looks like there, on a file system without faults.

* `PartlyStored`: a file that is being written holds a part of what is sent, and nothing else has
  changed but for directories on the way. Every call of a transfer keeps this.
* `Receiving.throughout`: the calls of a CREATE, chunk by chunk.
* `Replacing`: for an UPDATE the file that is being written is the temporary file, and then there
  are two more moments: the old file has gone, and the new one has come.
* `Drafting.throughout`: the calls of an UPDATE, chunk by chunk.
-/

set_option autoImplicit false

namespace RemoteBackup.Proofs

open Lib Stepwise

variable {env : Env} {d : Disk} {w w' : World} {id : Bytes} {l : Loc} {whole : Bytes}

/-! ### A file that is being written -/

/-- The tree is `d` but for the file at `l` and for directories on the way to it. Once the user's
stream is closed the file holds a part of `whole`, if it is there at all. -/
structure PartlyStored (d : Disk) (id : Bytes) (l : Loc) (whole : Bytes) (w : World) : Prop where
  others : ∀ k, k ≠ l → w.disk.look k = d.look k ∨
    (k <+: l ∧ d.look k = none ∧ w.disk.look k = some none)
  target : (w.disk.node l = none ∧ w.openOn id = none) ∨
    ∃ i, w.disk.node l = some (.file i) ∧ (∀ j, w.openOn id = some j → j = i) ∧
      w.settled id i <+: whole

/-- What is seen at a place is read off its entry and the file's bytes. -/
theorem look_of_node {e : Disk} {k : Loc} (hnode : e.node k = d.node k)
    (hcontent : ∀ j, d.node k = some (.file j) → e.content j = d.content j) :
    e.look k = d.look k := by
  rcases hd : d.node k with _ | _ | j
  · rw [Disk.look_eq_none.mpr hd, Disk.look_eq_none.mpr (hnode.trans hd)]
  · rw [Disk.look_eq_dir.mpr hd, Disk.look_eq_dir.mpr (hnode.trans hd)]
  · rw [Disk.look_of_file hd, Disk.look_of_file (hnode.trans hd), hcontent j hd]

/-- What a reader of the disk finds. -/
theorem PartlyStored.look (h : PartlyStored d id l whole w) :
    w.disk.look l = none ∨ ∃ part, part <+: whole ∧ w.disk.look l = some (some part) := by
  rcases h.target with ⟨hnone, -⟩ | ⟨i, hfile, -, hpart⟩
  · exact Or.inl (Disk.look_eq_none.mpr hnone)
  · exact Or.inr ⟨_, (List.prefix_append _ _).trans hpart, Disk.look_of_file hfile⟩

/-- A call that changes no place, and of the bytes only those of the user's own file. -/
theorem PartlyStored.of_streams (h : PartlyStored d id l whole w)
    (hnode : w'.disk.node = w.disk.node)
    (hcontent : ∀ j, w.openOn id ≠ some j → w'.disk.content j = w.disk.content j)
    (hopen : ∀ j, w'.openOn id = some j → w.openOn id = some j)
    (hpart : ∀ i, w.disk.node l = some (.file i) → w'.settled id i <+: whole) :
    PartlyStored d id l whole w' where
  others := by
    intro k hk
    have hlook : w'.disk.look k = w.disk.look k := by
      refine look_of_node (congrFun hnode k) fun j hj => hcontent j fun hw => ?_
      -- The stream writes to the file at `l` only.
      rcases h.target with ⟨-, hclosed⟩ | ⟨i, hfile, hopen, -⟩
      · rw [hclosed] at hw
        cases hw
      · obtain rfl := hopen j hw
        exact hk (w.disk.no_links k l j hj hfile)
    rw [hlook]
    exact h.others k hk
  target := by
    rw [hnode]
    rcases h.target with ⟨hnone, hclosed⟩ | ⟨i, hfile, hown, -⟩
    · refine Or.inl ⟨hnone, ?_⟩
      cases hj : w'.openOn id with
      | none => rfl
      | some j => exact absurd ((hopen j hj).symm.trans hclosed) (by simp)
    · exact Or.inr ⟨i, hfile, fun j hj => hown j (hopen j hj), hpart i hfile⟩

/-- Bytes that are handed to the system. -/
theorem PartlyStored.drain (h : PartlyStored d id l whole w) (k : Nat) :
    PartlyStored d id l whole (w.drain id k) := by
  refine h.of_streams (w.drain_node id k) (fun j hj => w.drain_content_of_ne id k hj)
    (fun j hj => by rwa [w.drain_openOn id k] at hj) fun i hi => ?_
  rw [World.drain_settled]
  rcases h.target with ⟨hnone, -⟩ | ⟨i', hfile, -, hpart⟩
  · rw [hnone] at hi
    cases hi
  · cases hfile.symm.trans hi
    exact hpart

/-- A write, when the bytes go on with what is sent. -/
theorem PartlyStored.write (h : PartlyStored d id l whole w) {content : Bytes}
    (hpart : ∀ i, w.disk.node l = some (.file i) → w.settled id i ++ content <+: whole) :
    PartlyStored d id l whole (w.write env id content) := by
  refine h.of_streams (World.write_node env w id content)
    (fun j hj => World.write_content_of_ne env w id content hj)
    (fun j hj => by rwa [World.write_openOn] at hj) fun i hi => ?_
  rw [World.write_settled]
  split
  · exact hpart i hi
  · rw [List.append_nil]
    exact (List.prefix_append _ _).trans (hpart i hi)

/-- The user's stream is closed or goes. -/
theorem PartlyStored.drop (h : PartlyStored d id l whole w) (x : Option Stream)
    (hx : ∀ s, x = some s → s.inode = none)
    (hfresh : ∀ t j, x = some t → t.inode = some j → j < (w.flush id).disk.next) :
    PartlyStored d id l whole ((w.flush id).withStream id x hfresh) := by
  have hflushed : PartlyStored d id l whole (w.flush id) := h.drain _
  have hclosed : ((w.flush id).withStream id x hfresh).openOn id = none := by
    rw [World.openOn, World.withStream_streams, Function.update_self]
    cases x with
    | none => rfl
    | some s => exact hx s rfl
  refine hflushed.of_streams rfl (fun _ _ => rfl) (fun j hj => ?_) fun i hi => ?_
  · rw [hclosed] at hj
    cases hj
  · rw [World.settled, hclosed, if_neg (by simp), List.append_nil]
    rcases hflushed.target with ⟨hnone, -⟩ | ⟨i', hfile, -, hpart⟩
    · rw [hnone] at hi
      cases hi
    · cases hfile.symm.trans hi
      exact (List.prefix_append _ _).trans hpart

/-- A stream that is closed has stored a part, or the whole. -/
theorem PartlyStored.close (h : PartlyStored d id l whole w) :
    PartlyStored d id l whole (w.close id) :=
  h.drop (some ⟨none, []⟩) (by rintro s ⟨⟩; rfl) _

/-- So has a stream that is erased. -/
theorem PartlyStored.eraseStream (h : PartlyStored d id l whole w) :
    PartlyStored d id l whole (w.eraseStream id) := h.drop none (by simp) _

/-- A call that is only noted stores nothing. -/
theorem PartlyStored.record (h : PartlyStored d id l whole w) (call : FsCall) :
    PartlyStored d id l whole (w.record call) := ⟨h.others, h.target⟩

/-- The parent directories are made. -/
theorem PartlyStored.createDirectories (hfaults : env.NoFaults) (h : PartlyStored d id l whole w)
    (hl : l ≠ []) (hpass : w.disk.Passable l.dropLast) :
    PartlyStored d id l whole (w.createDirectories env (toPath l.dropLast)).1 := by
  have hnode : ∀ k, (w.createDirectories env (toPath l.dropLast)).1.disk.node k =
      if k <+: l.dropLast then some .dir else w.disk.node k := by
    rw [(createDirectories_of_noFaults hfaults w _).2]
    exact (Disk.createDirectories_toPath hpass).2
  have hcontent := w.createDirectories_content env (toPath l.dropLast)
  have hstreams := w.createDirectories_streams env (toPath l.dropLast)
  have hself : ¬ l <+: l.dropLast := by
    intro habove
    have hlength := habove.length_le
    have hpos := List.length_pos_iff.mpr hl
    rw [List.length_dropLast] at hlength
    omega
  generalize (w.createDirectories env (toPath l.dropLast)).1 = w' at hnode hcontent hstreams ⊢
  constructor
  case others =>
    intro k hk
    by_cases habove : k <+: l.dropLast
    · have hmade : w'.disk.look k = some none :=
        Disk.look_eq_dir.mpr (by rw [hnode, if_pos habove])
      rcases h.others k hk with hsame | ⟨hkl, hnone, -⟩
      · rcases hd : w.disk.node k with _ | _ | i
        · refine Or.inr ⟨habove.trans (List.dropLast_prefix l), ?_, hmade⟩
          rw [← hsame]
          exact Disk.look_eq_none.mpr hd
        · left
          rw [hmade, ← hsame]
          exact (Disk.look_eq_dir.mpr hd).symm
        · exact absurd ⟨i, hd⟩ (hpass k habove)
      · exact Or.inr ⟨hkl, hnone, hmade⟩
    · have hsame : w'.disk.look k = w.disk.look k :=
        look_of_node (by rw [hnode, if_neg habove]) fun j _ => congrFun hcontent j
      rw [hsame]
      exact h.others k hk
  case target =>
    have hsettled : w'.settled id = w.settled id := by
      funext i
      rw [World.settled, World.settled, openOn_congr hstreams, hcontent, World.pendingOf,
        World.pendingOf, hstreams]
    rw [hnode, if_neg hself, openOn_congr hstreams, hsettled]
    exact h.target

/-- The file is made, with the user's stream. -/
theorem PartlyStored.opens (hfaults : env.NoFaults) (h : PartlyStored d id l whole w)
    (hnone : w.streams id = none) (hfree : w.disk.Free l) :
    PartlyStored d id l whole (opened env w id (toPath l)) := by
  have hopens := openStream_of_noFaults hfaults w (toPath l)
  have hdisk := opened_disk_of_noFaults hfaults w id (toPath l)
  rw [Disk.openAppend_free hfree] at hopens hdisk
  obtain ⟨hputs, hopen⟩ := opened_puts hnone hopens
  have hpending := opened_pendingOf env w id (toPath l)
  constructor
  case others =>
    intro k hk
    rw [hdisk, Disk.look_addFile hfree, if_neg hk]
    exact h.others k hk
  case target =>
    refine Or.inr ⟨w.disk.next, ?_, fun j hj => ?_, ?_⟩
    · rw [hdisk, Disk.addFile_node hfree, Function.update_self]
    · exact Option.some.inj (hj.symm.trans hopen)
    · rw [World.settled, if_pos hopen, hpending, hdisk, Disk.addFile_content hfree,
        Function.update_self, World.pendingOf, hnone]
      exact List.nil_prefix

/-- The file is opened once more, and the user's stream is kept. -/
theorem PartlyStored.reopens (hfaults : env.NoFaults) (h : PartlyStored d id l whole w)
    (hsome : w.streams id ≠ none) {i : Nat} (hfile : w.disk.node l = some (.file i)) :
    PartlyStored d id l whole (opened env w id (toPath l)) := by
  have hdisk := opened_disk_of_noFaults hfaults w id (toPath l)
  rw [Disk.openAppend_file hfile] at hdisk
  have hstreams : (opened env w id (toPath l)).streams = w.streams := by
    rcases w.getStream_cases env id (toPath l) with ⟨-, -, hstreams⟩ | ⟨hnone, -⟩
    · exact hstreams
    · exact absurd hnone hsome
  have hopen := @openOn_congr _ _ id hstreams
  refine h.of_streams (by rw [hdisk]) (fun j _ => by rw [hdisk]) (fun j hj => by rwa [hopen] at hj)
    fun j hj => ?_
  rw [World.settled, hopen, hdisk, World.pendingOf, hstreams]
  rcases h.target with ⟨hnone, -⟩ | ⟨i', hfile', -, hpart⟩
  · rw [hnone] at hj
    cases hj
  · cases hfile'.symm.trans hj
    exact hpart

/-- A chunk is written, when the file is that of the upload. -/
theorem PartlyStored.drafted (hfaults : env.NoFaults) (h : PartlyStored d id l whole w)
    {bytes content : Bytes} (hdrafts : Drafts w id l bytes)
    (hnew : w.streams id = none → w.disk.node l = none) (hwhole : bytes ++ content <+: whole) :
    PartlyStored d id l whole (opened env w id (toPath l)) ∧
      PartlyStored d id l whole ((opened env w id (toPath l)).write env id content) := by
  have hopened : PartlyStored d id l whole (opened env w id (toPath l)) := by
    cases hdrafts with
    | new hnone hfree => exact h.opens hfaults hnone hfree
    | leftover hnone i hfile =>
        rw [hnew hnone] at hfile
        cases hfile
    | later i hopen hfile =>
        refine h.reopens hfaults (fun hnone => ?_) hfile
        rw [noStream_openOn hnone] at hopen
        cases hopen
  refine ⟨hopened, hopened.write fun i hi => ?_⟩
  obtain ⟨j, hputs, hopen, hsettled⟩ := opened_drafts hfaults hdrafts
  rcases hopened.target with ⟨hnone, -⟩ | ⟨i', hfile, hown, -⟩
  · rw [hnone] at hi
    cases hi
  · cases hfile.symm.trans hi
    rw [← hown j hopen, hsettled]
    exact hwhole

/-! ### CREATE -/

variable {u : User} {dir : Dir} {view : TlvView} {replies : MessageQueue}
  {path digest bytes content : Bytes} {isLast : Bool} {i : Nat}

/-- How the stream and the file stand when the directories have been made. -/
theorem Takes.drafts (hfaults : env.NoFaults) (h : Takes w id l i bytes) (hl : l ≠ [])
    (hpass : w.disk.Passable l.dropLast) :
    Drafts (w.createDirectories env (toPath l.dropLast)).1 id l bytes ∧
      ((w.createDirectories env (toPath l.dropLast)).1.streams id = none →
        (w.createDirectories env (toPath l.dropLast)).1.disk.node l = none) := by
  have hnode := (Disk.createDirectories_toPath hpass).2
  rw [← (createDirectories_of_noFaults hfaults w _).2] at hnode
  have hcontent := w.createDirectories_content env (toPath l.dropLast)
  have hstreams := w.createDirectories_streams env (toPath l.dropLast)
  generalize (w.createDirectories env (toPath l.dropLast)).1 = w' at hnode hcontent hstreams ⊢
  have hself : w'.disk.node l = w.disk.node l := by
    rw [hnode, if_neg]
    intro habove
    have hlength := habove.length_le
    have hpos := List.length_pos_iff.mpr hl
    rw [List.length_dropLast] at hlength
    omega
  cases h with
  | first hnone hfree hnew =>
      rw [← hstreams] at hnone
      rw [← hself] at hfree
      refine ⟨.new hnone ⟨hl, hfree, ?_⟩, fun _ => hfree⟩
      rw [hnode, if_pos (List.prefix_refl _)]
  | later hopen hfile =>
      rw [← hstreams] at hopen
      rw [← hself] at hfile
      have hwrites : w'.openOn id = some i := World.openOn_eq_some.mpr ⟨[], hopen⟩
      have hsettled : w'.settled id i = w.disk.content i := by
        rw [World.settled, if_pos hwrites, World.pendingOf, hopen, hcontent, List.append_nil]
      refine ⟨?_, fun hnone => absurd (hopen.symm.trans hnone) (by simp)⟩
      rw [← hsettled]
      exact .later i hwrites hfile

/-- The calls of the last check, when the digest is that of the file. -/
theorem checkDigest_throughout (hfaults : env.NoFaults) {I : World → Prop} {p : Path}
    (hread : w.disk.read p = some bytes) (hdigest : md5HashString env (path ++ bytes) = digest)
    (h : I w) (hchecked : I (checked w p)) {noMatch failed : ErrType} :
    (Stepwise.checkDigest env u dir replies p path digest noMatch failed).Throughout (exec env) I
      w := by
  have hmatch : (w.md5Hash env p path).2 = .ok digest := by
    rw [World.md5Hash_of_read hread, hfaults, if_neg (by simp), hdigest]
  rcases hmd5 : w.md5Hash env p path with ⟨w1, found⟩
  have hworld : (w.md5Hash env p path).1 = checked w p := World.md5Hash_fst env w p path
  rw [hmd5] at hmatch hworld
  obtain rfl : found = .ok digest := hmatch
  obtain rfl : w1 = checked w p := hworld
  refine Prog.throughout_call hmd5 h ?_
  dsimp only
  rw [if_neg (not_not_intro rfl)]
  exact Prog.throughout_done hchecked

/-- The calls of one CREATE. -/
theorem createTransfer_throughout (hfaults : env.NoFaults)
    (hpath : append dir.path path = toPath l) (hl : l ≠ []) (hpass : w.disk.Passable l.dropLast)
    (htakes : Takes w u.id l i bytes) (hcontent : view.value = .ok content)
    (hend : view.verifyEnd = .ok isLast)
    (hdigest : isLast = true → md5HashString env (path ++ (bytes ++ content)) = digest)
    (hwhole : bytes ++ content <+: whole) (h : PartlyStored d u.id l whole w) :
    (Stepwise.createTransfer env u dir view replies path digest).Throughout (exec env)
      (PartlyStored d u.id l whole) w := by
  obtain ⟨m, n, rfl⟩ := (List.eq_nil_or_concat' l).resolve_left hl
  have hparent : parentPath (toPath (m ++ [n])) = toPath (m ++ [n]).dropLast := by
    rw [parentPath_toPath, List.dropLast_concat]
  obtain ⟨hdrafts, hnew⟩ := htakes.drafts hfaults hl hpass
  have hmade := h.createDirectories hfaults hl hpass
  have hok : (w.createDirectories env (toPath (m ++ [n]).dropLast)).2 = true := by
    rw [(createDirectories_of_noFaults hfaults w _).1]
    exact (Disk.createDirectories_toPath hpass).1
  unfold Stepwise.createTransfer
  dsimp only
  rw [hpath, hparent]
  rcases hmake : w.createDirectories env (toPath (m ++ [n]).dropLast) with ⟨w1, made⟩
  rw [hmake] at hdrafts hnew hmade hok
  obtain rfl : made = true := hok
  refine Prog.throughout_call hmake h ?_
  obtain ⟨hopened, hwritten⟩ := hmade.drafted hfaults hdrafts hnew hwhole
  obtain ⟨husable, j, hputs, -, hsettled⟩ := drafted hfaults hdrafts content
  rw [opened] at hopened hwritten husable hputs hsettled
  rcases hget : w1.getStream env u.id (toPath (m ++ [n])) with ⟨w2, isFirst⟩
  rw [hget] at hopened hwritten husable hputs hsettled
  refine Prog.throughout_call hget hmade ?_
  refine Prog.throughout_call (exec_usable husable) hopened ?_
  rw [hcontent]
  refine Prog.throughout_call rfl hopened (Prog.throughout_call rfl hwritten ?_)
  rw [hend]
  have hflushed : PartlyStored d u.id (m ++ [n]) whole ((w2.write env u.id content).flush u.id) :=
    hwritten.drain _
  cases isLast with
  | false => exact Prog.throughout_done hflushed
  | true =>
      refine Prog.throughout_call rfl hflushed (Prog.throughout_call rfl hflushed.close ?_)
      have hclosed := hflushed.close.eraseStream
      have hread : (closed ((w2.write env u.id content).flush u.id) u.id).disk.read
          (toPath (m ++ [n])) = some (bytes ++ content) := by
        have hfile := (hputs.files (m ++ [n]) j).mpr (Or.inr ⟨rfl, rfl⟩)
        rw [written, if_neg (by simp)] at hfile hsettled
        rw [Disk.read_toPath (by rw [closed, World.closed_node, World.flush_node]; exact hfile),
          closed, World.closed_content, World.flush_settled, hsettled]
      exact checkDigest_throughout hfaults hread (hdigest rfl) hclosed (hclosed.record _)

/-! ### A CREATE in many chunks -/

variable {s : Server} {c : Nat} {m : Message}

/-- The calls of one chunk. -/
theorem Receiving.chunk (hfaults : env.NoFaults) (h : Receiving env s c u dir path l i bytes)
    (hm : Uploads .create path digest content isLast m)
    (hdigest : isLast = true → md5HashString env (path ++ (bytes ++ content)) = digest)
    (hwhole : bytes ++ content <+: whole) (hpart : PartlyStored d u.id l whole s.world) :
    (Stepwise.handleRequest env u m).Throughout (exec env) (PartlyStored d u.id l whole)
      s.world := by
  obtain ⟨view, replies, htask, hcontent, hend⟩ := taskOf_creates hm h.ready h.unsynced
  rw [Stepwise.handleRequest, htask]
  exact createTransfer_throughout hfaults h.placed h.ne_nil h.way h.takes hcontent hend hdigest
    hwhole hpart

/-- While the temporary file of a file is written, nothing else changes. -/
theorem PartlyStored.off (h : PartlyStored d id (draft l) whole w) (hl : d.IsFile l) {k : Loc}
    (hk : k ≠ draft l) : w.disk.look k = d.look k := by
  rcases h.others k hk with hsame | ⟨habove, hnone, -⟩
  · exact hsame
  -- The directories above the temporary file are those above the file.
  · exfalso
    obtain ⟨j, hfile⟩ := hl
    obtain ⟨m, n, rfl⟩ := (List.eq_nil_or_concat' l).resolve_left (Disk.ne_nil_of_file hfile)
    obtain ⟨n', -, hdraft, -⟩ := draft_concat m n
    rw [hdraft] at habove hk
    have hkm := (List.prefix_concat_iff.mp habove).resolve_left hk
    have hkl : k ≠ m ++ [n] := by
      rintro rfl
      have hlength := hkm.length_le
      rw [List.length_append, List.length_singleton] at hlength
      omega
    have hdir := d.dir_of_prefix (hkm.trans (List.prefix_append m [n])) hkl (by rw [hfile]; simp)
    rw [Disk.look_eq_dir.mpr hdir] at hnone
    cases hnone

/-- The upload is complete. The old file has gone, or the new one has come as well; everything else
is as in `d`. -/
structure Swapped (d : Disk) (id : Bytes) (l : Loc) (whole : Bytes) (w : World) : Prop where
  others : ∀ k, k ≠ l → k ≠ draft l → w.disk.look k = d.look k
  noStream : w.openOn id = none
  places : (w.disk.look l = none ∧ w.disk.look (draft l) = some (some whole)) ∨
    (w.disk.look l = some (some whole) ∧ w.disk.look (draft l) = none)

/-- An UPDATE between two of its calls. -/
def Updating (d : Disk) (id : Bytes) (l : Loc) (whole : Bytes) (w : World) : Prop :=
  PartlyStored d id (draft l) whole w ∨ Swapped d id l whole w

/-- A call that is only noted moves nothing. -/
theorem Swapped.record (h : Swapped d id l whole w) (call : FsCall) :
    Swapped d id l whole (w.record call) := ⟨h.others, h.noStream, h.places⟩

/-- The two calls that bring the new file to its place. -/
theorem swapped_renamed (hfaults : env.NoFaults)
    (h : PartlyStored d id (draft l) whole (closed w id)) (hl : d.IsFile l)
    (htemp : tempPath (toPath l) = toPath (draft l)) (hne : draft l ≠ l) {i j : Nat}
    (hdraft : w.disk.node (draft l) = some (.file i))
    (hfile : w.disk.node l = some (.file j)) (hsettled : w.settled id i = whole) :
    Swapped d id l whole (removed env (closed w id) (toPath l)) ∧
      Swapped d id l whole (renamed env (closed w id) (toPath l)) := by
  obtain ⟨hremove, -, hnode, hcontent, hstreams⟩ :=
    @renamed_closed env w id l hfaults i j htemp hne hdraft hfile
  have hclosed : (closed w id).disk.node = w.disk.node := World.closed_node w id
  have hbytes : (closed w id).disk.content = w.settled id := World.closed_content w id
  have hgone : (removed env (closed w id) (toPath l)).disk.node =
      Function.update w.disk.node l none := by
    rw [← hclosed] at hfile ⊢
    exact World.remove_node (Disk.locate_toPath_of_node (by rw [hfile]; simp)) hfile hremove
  have hleft : (removed env (closed w id) (toPath l)).disk.content = w.settled id := by
    rw [removed, World.remove_content, hbytes]
  have hoff : ∀ {w' : World} (k : Loc), w'.disk.node k = w.disk.node k →
      w'.disk.content = w.settled id → k ≠ draft l → w'.disk.look k = d.look k := by
    intro w' k hk hcontent hkd
    rw [← h.off hl hkd]
    exact look_of_node (by rw [hk, hclosed]) fun _ _ => by rw [hcontent, hbytes]
  constructor
  · constructor
    case others =>
      intro k hkl hkd
      exact hoff k (by rw [hgone, Function.update_of_ne hkl]) hleft hkd
    case noStream =>
      exact (openOn_congr (World.remove_streams env (closed w id) (toPath l))).trans
        (closed_openOn w id)
    case places =>
      left
      constructor
      · exact Disk.look_eq_none.mpr (by rw [hgone, Function.update_self])
      · rw [Disk.look_of_file (i := i) (by rw [hgone, Function.update_of_ne hne, hdraft]), hleft,
          hsettled]
  · constructor
    case others =>
      intro k hkl hkd
      exact hoff k (by rw [hnode, if_neg hkl, if_neg hkd]) hcontent hkd
    case noStream =>
      rw [openOn_congr hstreams]
      exact closed_openOn w id
    case places =>
      right
      constructor
      · rw [Disk.look_of_file (i := i) (by rw [hnode, if_pos rfl]), hcontent, hsettled]
      · exact Disk.look_eq_none.mpr (by rw [hnode, if_neg hne, if_pos rfl])

/-- The calls of one UPDATE. -/
theorem updateTransfer_throughout (hfaults : env.NoFaults) {oldDigest : Bytes}
    (hpath : append dir.path path = toPath l) (htemp : tempPath (toPath l) = toPath (draft l))
    (hne : draft l ≠ l) (hl : d.IsFile l) {j : Nat} (hfile : w.disk.node l = some (.file j))
    (hdrafts : Drafts w u.id (draft l) bytes)
    (hnew : w.streams u.id = none → w.disk.node (draft l) = none)
    (hcontent : view.value = .ok content) (hend : view.verifyEnd = .ok isLast)
    (hdigest : isLast = true → md5HashString env (path ++ (bytes ++ content)) = digest)
    (hwhole : bytes ++ content <+: whole) (hlast : isLast = true → bytes ++ content = whole)
    (h : PartlyStored d u.id (draft l) whole w) :
    (Stepwise.updateTransfer env u dir view replies path digest oldDigest).Throughout (exec env)
      (Updating d u.id l whole) w := by
  obtain ⟨hopened, hwritten⟩ := h.drafted hfaults hdrafts hnew hwhole
  obtain ⟨husable, i, hputs, hopen, hsettled⟩ := drafted hfaults hdrafts content
  rw [opened] at hopened hwritten husable hputs hopen hsettled
  unfold Stepwise.updateTransfer
  dsimp only
  rw [hpath, htemp]
  rcases hget : w.getStream env u.id (toPath (draft l)) with ⟨w1, isFirst⟩
  rw [hget] at hopened hwritten husable hputs hopen hsettled
  refine Prog.throughout_call hget (Or.inl h) ?_
  refine Prog.throughout_call (exec_usable husable) (Or.inl hopened) ?_
  rw [hcontent]
  refine Prog.throughout_call rfl (Or.inl hopened) ?_
  rw [hend]
  cases isLast with
  | false => exact Prog.throughout_done (Or.inl hwritten)
  | true =>
      rw [written, if_neg (by simp)] at hputs hopen hsettled
      have hclosed := hwritten.close.eraseStream
      have hfile' := (hputs.files l j).mpr (Or.inl hfile)
      have hdraft := (hputs.files (draft l) i).mpr (Or.inr ⟨rfl, rfl⟩)
      obtain ⟨hgone, hcome⟩ := swapped_renamed hfaults hclosed hl htemp hne hdraft hfile'
        (hsettled.trans (hlast rfl))
      obtain ⟨hremove, hrename, hnode, hbytes, -⟩ :=
        @renamed_closed env _ u.id l hfaults i j htemp hne hdraft hfile'
      refine Prog.throughout_call rfl (Or.inl hwritten)
        (Prog.throughout_call rfl (Or.inl hwritten.close) ?_)
      have hread : (renamed env (closed (w1.write env u.id content) u.id) (toPath l)).disk.read
          (toPath l) = some (bytes ++ content) := by
        rw [Disk.read_toPath (by rw [hnode, if_pos rfl]), hbytes, hsettled]
      rw [removed] at hgone
      rw [renamed, removed] at hcome hread
      rw [removed] at hrename
      rcases hremoved : (closed (w1.write env u.id content) u.id).remove env (toPath l) with
        ⟨w2, gone⟩
      rw [hremoved] at hremove hrename hgone hcome hread
      obtain rfl : gone = true := hremove
      refine Prog.throughout_call hremoved (Or.inl hclosed) ?_
      rw [htemp] at hrename hcome hread
      rcases hrenamed : w2.rename env (toPath (draft l)) (toPath l) with ⟨w3, there⟩
      rw [hrenamed] at hrename hcome hread
      obtain rfl : there = true := hrename
      refine Prog.throughout_call hrenamed (Or.inr hgone) ?_
      exact checkDigest_throughout hfaults hread (hdigest rfl) (Or.inr hcome)
        (Or.inr (hcome.record _))

/-! ### An UPDATE in many chunks -/

variable {oldDigest old : Bytes}

/-- The calls of one chunk. -/
theorem Drafting.chunk (hfaults : env.NoFaults)
    (h : Drafting env s c u dir path oldDigest l old bytes)
    (hm : Uploads .update path digest content isLast m) (hne : oldDigest ≠ digest)
    (hl : d.IsFile l) (hnew : s.world.streams u.id = none → s.world.disk.node (draft l) = none)
    (hdigest : isLast = true → md5HashString env (path ++ (bytes ++ content)) = digest)
    (hwhole : bytes ++ content <+: whole) (hlast : isLast = true → bytes ++ content = whole)
    (hpart : PartlyStored d u.id (draft l) whole s.world) :
    (Stepwise.handleRequest env u m).Throughout (exec env) (Updating d u.id l whole) s.world := by
  obtain ⟨view, replies, htask, hcontent, hend⟩ := taskOf_updates hm h.ready h.entry hne
  obtain ⟨j, hfile, -⟩ := h.file
  rw [Stepwise.handleRequest, htask]
  exact updateTransfer_throughout hfaults h.placed h.temp h.apart hl hfile h.drafts hnew hcontent
    hend hdigest hwhole hlast hpart

/-- A draft that is under way has an open stream. -/
theorem Drafts.opened (h : Drafts w id l bytes) (hsome : w.streams id ≠ none) :
    ∃ i, w.openOn id = some i := by
  cases h with
  | new hnone => exact absurd hnone hsome
  | leftover hnone => exact absurd hnone hsome
  | later i hopen => exact ⟨i, hopen⟩

end RemoteBackup.Proofs
