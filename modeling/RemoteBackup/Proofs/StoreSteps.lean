import RemoteBackup.Lib.Store
import RemoteBackup.Proofs.ChunkedUpdate
import RemoteBackup.Proofs.EraseTree

/-!
# `RemoteBackup.Proofs.StoreSteps`: one exchange with a user's store

A session that works on the store of its user: the directory holds the store, the view indexes it,
and no stream is open (`WorksOn`). A complete CREATE, UPDATE or ERASE is one operation of the store.

* `Indexes.put`, `Indexes.erase`: the view after the operation.
* `Receiving.grows`, `Drafting.off`: the tree along the chunks of a CREATE and of an UPDATE.
* `WorksOn.create`, `WorksOn.update`, `WorksOn.erase`: the operations.
* `WorksOn.refuse`: a request that a check turns down.
-/

set_option autoImplicit false

namespace RemoteBackup.Proofs

open Lib

/-! ### The view -/

/-- What the view says of a file. -/
def indexEntry (env : Env) (ns : Loc) (bytes : Bytes) : Resource :=
  ⟨true, md5HashString env (toPath ns ++ bytes)⟩

/-- A lookup in the view finds the files of the store, each under the path that SYNC writes, and
nothing else. -/
def Indexes (env : Env) (dir : Dir) (S : Store) : Prop :=
  ∀ q r, dir.rsrc env.hash q = some r ↔
    ∃ ns bytes, S.file ns = some bytes ∧ sameKey env.hash (toPath ns) q ∧
      r = indexEntry env ns bytes

variable {env : Env} {dir dir' : Dir} {S : Store} {ns : Loc}

/-- Different names have different keys. -/
theorem eq_of_sameKey {ms : Loc} {q : Path} (h : sameKey env.hash (toPath ns) q)
    (h' : sameKey env.hash (toPath ms) q) : ms = ns := by
  have helements := h'.2.trans h.2.symm
  rw [elements_toPath, elements_toPath, List.cons.injEq] at helements
  exact List.map_injective_iff.mpr Subtype.val_injective helements.2

/-- The entry of a file is that of its bytes. -/
theorem Indexes.entry (h : Indexes env dir S) (ns : Loc) :
    dir.rsrc env.hash (toPath ns) = (S.file ns).map (indexEntry env ns) := by
  ext r
  rw [h]
  constructor
  · rintro ⟨ms, bytes, hfile, hkey, rfl⟩
    obtain rfl := eq_of_sameKey (sameKey_refl _) hkey
    rw [hfile, Option.map_some]
  · intro hentry
    obtain ⟨bytes, hfile, rfl⟩ := Option.map_eq_some_iff.mp hentry
    exact ⟨ns, bytes, hfile, sameKey_refl _, rfl⟩

/-- A file of the store has an entry that is finished, with its digest. -/
theorem Indexes.found (h : Indexes env dir S) {bytes : Bytes} (hfile : S.file ns = some bytes) :
    dir.rsrc env.hash (toPath ns) = some ⟨true, md5HashString env (toPath ns ++ bytes)⟩ := by
  rw [h.entry, hfile]
  rfl

/-- What is not in the store has no entry. -/
theorem Indexes.missing (h : Indexes env dir S) (hnone : S.file ns = none) :
    dir.rsrc env.hash (toPath ns) = none := by
  rw [h.entry, hnone, Option.map_none]

/-- A view that has entered the file indexes the store with it. -/
theorem Indexes.put (h : Indexes env dir S) {bytes : Bytes} (hfits : S.Fits ns)
    (hentries : ∀ q, dir'.rsrc env.hash q =
      if sameKey env.hash (toPath ns) q then some (indexEntry env ns bytes)
      else dir.rsrc env.hash q) : Indexes env dir' (S.put ns bytes hfits) := by
  intro q r
  rw [hentries, Store.put_file]
  split
  · rename_i hq
    constructor
    · rintro ⟨rfl⟩
      exact ⟨ns, bytes, Function.update_self .., hq, rfl⟩
    · rintro ⟨ms, bs, hfile, hkey, rfl⟩
      obtain rfl := eq_of_sameKey hq hkey
      rw [Function.update_self] at hfile
      rw [Option.some.inj hfile]
  · rename_i hq
    rw [h]
    -- A path that is not the new one's has the entry that it had.
    refine exists_congr fun ms => exists_congr fun bs => and_congr_left fun hkey => ?_
    have hne : ms ≠ ns := by
      rintro rfl
      exact hq hkey.1
    rw [Function.update_of_ne hne]

/-- A view that has dropped the file indexes the store without it. -/
theorem Indexes.erase (h : Indexes env dir S)
    (hentries : ∀ q, dir'.rsrc env.hash q =
      if sameKey env.hash (toPath ns) q then none else dir.rsrc env.hash q) :
    Indexes env dir' (S.erase ns) := by
  intro q r
  rw [hentries, Store.erase_file]
  split
  · rename_i hq
    refine iff_of_false (by simp) ?_
    rintro ⟨ms, bs, hfile, hkey, -⟩
    obtain rfl := eq_of_sameKey hq hkey
    rw [Function.update_self] at hfile
    exact absurd hfile (by simp)
  · rename_i hq
    rw [h]
    refine exists_congr fun ms => exists_congr fun bs => and_congr_left fun hkey => ?_
    have hne : ms ≠ ns := by
      rintro rfl
      exact hq hkey.1
    rw [Function.update_of_ne hne]

/-! ### The session -/

/-- The session works on the store `S`: no transfer is under way, the directory holds the store, and
the view indexes it. -/
structure WorksOn (env : Env) (s : Server) (c : Nat) (u : User) (dir : Dir) (S : Store) : Prop where
  running : s.halt = none
  session : s.sessions c = some u
  ready : Transferring u dir
  path_eq : dir.path = toPath (userDirectory env u)
  stream : s.world.streams u.id = none
  view : Indexes env dir S
  tree : s.world.disk.Holds (userDirectory env u) S

variable {s : Server} {c : Nat} {u : User}

/-- The place of a name. -/
theorem WorksOn.placed (h : WorksOn env s c u dir S) (hns : ns ≠ []) :
    append dir.path (toPath ns) = toPath (userDirectory env u ++ ns) := by
  rw [h.path_eq, append_plain (userDirectory_ne_nil env u) hns (Or.inl rfl)]

/-- What an upload leaves, when the tree holds the store with the new file. -/
theorem WorksOn.uploaded (h : WorksOn env s c u dir S) {bytes : Bytes} (hfits : S.Fits ns)
    {ls : List Loc} {s' : Server}
    (huploaded : Uploaded env s c u dir (toPath ns) (userDirectory env u ++ ns) ls
      (indexEntry env ns bytes) bytes s' dir')
    (hstream : s'.world.streams u.id = none)
    (htree : s'.world.disk.Holds (userDirectory env u) (S.put ns bytes hfits)) :
    WorksOn env s' c { u with dir := some dir' } dir' (S.put ns bytes hfits) where
  running := huploaded.running
  session := huploaded.session
  ready := ⟨h.ready.auth, h.ready.synced, rfl⟩
  path_eq := huploaded.root.trans h.path_eq
  stream := hstream
  view := h.view.put hfits huploaded.entries
  tree := htree

/-! ### CREATE -/

/-- The chunks of a CREATE make the tree grow by the file. Induction on the list of chunks. -/
theorem Receiving.grows (hfaults : env.NoFaults) {path digest : Bytes} {l : Loc} {i : Nat}
    {contents : List Bytes} {ms : List Message}
    (hms : Chunks .create path digest contents ms) :
    ∀ {s : Server} {u : User} {dir : Dir} {bytes : Bytes},
      Receiving env s c u dir path l i bytes →
      md5HashString env (path ++ (bytes ++ contents.flatten)) = digest →
      s.world.disk.Grown l i (run (Server.step env) s (requests c ms)).world.disk ∧
        (run (Server.step env) s (requests c ms)).world.disk.content =
          Function.update s.world.disk.content i (bytes ++ contents.flatten) := by
  induction hms with
  | @last content m hm =>
      intro s u dir bytes h hdigest
      rw [List.flatten_singleton] at hdigest ⊢
      obtain ⟨w', replies, hserved, hgrown, hbytes, -⟩ := h.served hfaults hm fun _ => hdigest
      show s.world.disk.Grown l i (Server.step env s (.request c m)).world.disk ∧
        (Server.step env s (.request c m)).world.disk.content = _
      rw [step_request m h.running h.session, Server.serve, hserved]
      exact ⟨hgrown, hbytes⟩
  | @more content contents m ms hm hms ih =>
      intro s u dir bytes h hdigest
      rw [List.flatten_cons, ← List.append_assoc bytes] at hdigest ⊢
      obtain ⟨w', replies, hserved, hgrown, hbytes, -⟩ := h.served hfaults hm (by simp)
      obtain ⟨-, dir', -, hnext⟩ := h.step hfaults hm (by simp)
      obtain ⟨hrest, hcontent⟩ := ih hnext hdigest
      have hworld : (Server.step env s (.request c m)).world = w' := by
        rw [step_request m h.running h.session, Server.serve, hserved]
        rfl
      rw [hworld] at hrest hcontent
      refine ⟨hgrown.trans hrest, ?_⟩
      rw [hbytes, Function.update_idem] at hcontent
      exact hcontent

/-- **A complete CREATE** puts a new file into the store. -/
theorem WorksOn.create (hfaults : env.NoFaults) (h : WorksOn env s c u dir S) (hfits : S.Fits ns)
    (hnone : S.file ns = none) {contents : List Bytes} {ms : List Message}
    (hms : Chunks .create (toPath ns) (md5HashString env (toPath ns ++ contents.flatten))
      contents ms) :
    Along (Server.step env) (OnRequest (AnsweredOk env)) s (requests c ms) ∧
      ∃ dir', WorksOn env (run (Server.step env) s (requests c ms)) c { u with dir := some dir' }
        dir' (S.put ns contents.flatten hfits) := by
  have hreceiving : Receiving env s c u dir (toPath ns) (userDirectory env u ++ ns)
      s.world.disk.next [] := by
    refine ⟨h.running, h.session, h.ready, h.placed hfits.1, by simp [hfits.1],
      h.tree.passable hfits, .first h.stream (h.tree.free hfits hnone) rfl, ?_⟩
    rw [h.stream, if_pos rfl, h.view.missing hnone]
  obtain ⟨hanswered, -, ⟨dir', hstored⟩, hstream⟩ := hreceiving.chunks hfaults hms rfl
  obtain ⟨hgrown, hcontent⟩ := hreceiving.grows hfaults hms rfl
  rw [List.nil_append] at hstored hcontent
  refine ⟨hanswered, dir', h.uploaded hfits hstored hstream ?_⟩
  exact h.tree.grown hfits hgrown (fun k hk => hreceiving.takes.place hk) hcontent

/-! ### UPDATE -/

/-- The temporary file stands next to the file. -/
theorem draft_append (d : Loc) (hns : ns ≠ []) : draft (d ++ ns) = d ++ draft ns := by
  obtain ⟨ms, n, rfl⟩ := (List.eq_nil_or_concat' ns).resolve_left hns
  obtain ⟨n', hn', hdraft, -⟩ := draft_concat (d ++ ms) n
  obtain ⟨n2, hn2, hdraft2, -⟩ := draft_concat ms n
  rw [← List.append_assoc, hdraft, hdraft2, List.append_assoc]
  congr 2
  exact congrArg (fun n => [n]) (Subtype.ext (hn'.trans hn2.symm))

/-- One request of an UPDATE changes the tree at the file and the temporary file only. -/
theorem Drafting.off (hfaults : env.NoFaults) {path digest oldDigest : Bytes} {l : Loc}
    {old bytes content : Bytes} {isLast : Bool} {m : Message}
    (h : Drafting env s c u dir path oldDigest l old bytes)
    (hm : Uploads .update path digest content isLast m) (hne : oldDigest ≠ digest)
    (hdigest : isLast = true → md5HashString env (path ++ (bytes ++ content)) = digest)
    {k : Loc} (hkl : k ≠ l) (hkd : k ≠ draft l) :
    (Server.step env s (.request c m)).world.disk.node k = s.world.disk.node k := by
  obtain ⟨view, replies, htask, hcontent, hend⟩ := taskOf_updates hm h.ready h.entry hne
  obtain ⟨husable, i, hputs, hopen, hsettled⟩ := drafted hfaults h.drafts content
  -- The chunk goes to the temporary file.
  have hnode : (written env (opened env s.world u.id (toPath (draft l))) u.id content
      false).disk.node k = s.world.disk.node k := by
    rw [written_node, opened_disk_of_noFaults hfaults, Disk.openAppend_off hkd]
  rw [← h.temp] at husable hputs hopen hsettled hnode
  rw [step_request m h.running h.session, Server.serve, handleRequest_eq_perform, htask, perform,
    updateTransfer_eq, h.placed, writeChunk_usable husable hcontent hend]
  generalize written env (opened env s.world u.id (tempPath (toPath l))) u.id content false = w'
    at hputs hopen hsettled hnode ⊢
  cases isLast with
  | false => exact hnode
  | true =>
      obtain ⟨j, hfile, -⟩ := h.file
      have hfile' := (hputs.files l j).mpr (Or.inl hfile)
      have hdraft := (hputs.files (draft l) i).mpr (Or.inr ⟨rfl, rfl⟩)
      obtain ⟨hremove, hrename, hrenamed, hbytes, -⟩ := @renamed_closed env w' u.id l hfaults i j
        h.temp h.apart hdraft hfile'
      have hread : (renamed env (closed w' u.id) (toPath l)).disk.read (toPath l) =
          some (bytes ++ content) := by
        rw [Disk.read_toPath (by rw [hrenamed, if_pos rfl]), hbytes, hsettled]
      simp only [if_true]
      rw [updateFinish_eq hremove hrename, checkDigest_matching hfaults hread (hdigest rfl)]
      show (renamed env (closed w' u.id) (toPath l)).disk.node k = _
      rw [hrenamed, if_neg hkl, if_neg hkd, hnode]

/-- The chunks of an UPDATE change the tree at these two places only. Induction on the list. -/
theorem Drafting.offAll (hfaults : env.NoFaults) {path digest oldDigest : Bytes} {l : Loc}
    {old : Bytes} {contents : List Bytes} {ms : List Message}
    (hms : Chunks .update path digest contents ms) (hne : oldDigest ≠ digest) {k : Loc}
    (hkl : k ≠ l) (hkd : k ≠ draft l) :
    ∀ {s : Server} {u : User} {dir : Dir} {bytes : Bytes},
      Drafting env s c u dir path oldDigest l old bytes →
      md5HashString env (path ++ (bytes ++ contents.flatten)) = digest →
      (run (Server.step env) s (requests c ms)).world.disk.node k = s.world.disk.node k := by
  induction hms with
  | @last content m hm =>
      intro s u dir bytes h hdigest
      rw [List.flatten_singleton] at hdigest
      exact h.off hfaults hm hne (fun _ => hdigest) hkl hkd
  | @more content contents m ms hm hms ih =>
      intro s u dir bytes h hdigest
      rw [List.flatten_cons, ← List.append_assoc bytes] at hdigest
      obtain ⟨-, dir', -, hnext⟩ := h.next hfaults hm hne
      exact (ih hnext hdigest).trans (h.off hfaults hm hne (by simp) hkl hkd)

/-- A place that keeps its entry, and the bytes of its file, looks the same. -/
theorem look_of_sameBut {ls : List Loc} {d e : Disk} (h : Disk.SameBut ls d e) {k : Loc}
    (hk : k ∉ ls) (hnode : e.node k = d.node k) : e.look k = d.look k := by
  rcases hd : d.node k with _ | _ | i
  · rw [Disk.look_eq_none.mpr hd, Disk.look_eq_none.mpr (hnode.trans hd)]
  · rw [Disk.look_eq_dir.mpr hd, Disk.look_eq_dir.mpr (hnode.trans hd)]
  · rw [Disk.look_of_file hd, Disk.look_of_file (hnode.trans hd), (h k i hk).2 hd]

/-- **A complete UPDATE** replaces a file of the store, when nothing stands in the place of the
temporary file. -/
theorem WorksOn.update (hfaults : env.NoFaults) (h : WorksOn env s c u dir S) {old : Bytes}
    (hold : S.file ns = some old) (hfits : S.Fits ns) (hbare : S.Bare (draft ns))
    {contents : List Bytes} {ms : List Message}
    (hne : md5HashString env (toPath ns ++ old) ≠ md5HashString env (toPath ns ++ contents.flatten))
    (hms : Chunks .update (toPath ns) (md5HashString env (toPath ns ++ contents.flatten))
      contents ms) :
    Along (Server.step env) (OnRequest (AnsweredOk env)) s (requests c ms) ∧
      ∃ dir', WorksOn env (run (Server.step env) s (requests c ms)) c { u with dir := some dir' }
        dir' (S.put ns contents.flatten hfits) := by
  have hd := userDirectory_ne_nil env u
  have hplace := place_toPath hd hfits.1
  obtain ⟨-, htemp, -, hnil, -, hapart⟩ := plain_placed hd ⟨ns, hfits.1, Or.inl rfl⟩
  rw [hplace] at htemp hnil hapart
  obtain ⟨j, hfile, hbytes⟩ := Disk.look_eq_file.mp ((h.tree.files ns old).mpr hold)
  have hdraft := draft_append (userDirectory env u) hfits.1
  have hdraftNone : s.world.disk.node (draft (userDirectory env u ++ ns)) = none := by
    rw [hdraft, ← Disk.look_eq_none]
    exact h.tree.bare (draft_ne_nil hfits.1) hbare
  have hfree : s.world.disk.Free (draft (userDirectory env u ++ ns)) := by
    refine ⟨draft_ne_nil hnil, hdraftNone, ?_⟩
    rw [draft_dropLast hnil]
    exact s.world.disk.parent_dir _ hnil (by rw [hfile]; simp)
  have hdrafting : Drafting env s c u dir (toPath ns) (md5HashString env (toPath ns ++ old))
      (userDirectory env u ++ ns) old [] := by
    refine ⟨h.running, h.session, h.ready, h.placed hfits.1, htemp, hapart, ?_,
      ⟨j, hfile, hbytes⟩, .new h.stream hfree⟩
    rw [h.view.found hold, h.stream]
    rfl
  obtain ⟨hanswered, -, hstream, hmoved, dir', hstored⟩ :=
    (hdrafting.chunks hfaults hms hne).1 rfl
  rw [List.nil_append] at hstored
  refine ⟨hanswered, dir', h.uploaded hfits hstored hstream ?_⟩
  have hoff : ∀ k, k ≠ userDirectory env u ++ ns →
      (run (Server.step env) s (requests c ms)).world.disk.look k = s.world.disk.look k := by
    intro k hk
    by_cases hkd : k = draft (userDirectory env u ++ ns)
    · rw [hkd, Disk.look_eq_none.mpr hmoved, Disk.look_eq_none.mpr hdraftNone]
    · exact look_of_sameBut hstored.others (by simp [hk, hkd])
        (hdrafting.offAll hfaults hms hne hk hkd rfl)
  refine h.tree.put hfits (Disk.look_eq_file.mpr hstored.file) (fun k _ hk hne => ?_)
    (fun k _ hk => hoff k fun heq => hk (heq ▸ List.prefix_refl _))
  -- The file was there, so there were directories on the way to it.
  rw [hoff k hne, Disk.look_eq_dir]
  exact s.world.disk.dir_of_prefix hk hne (by rw [hfile]; simp)

/-! ### ERASE -/

/-- **An ERASE** takes a file out of the store. -/
theorem WorksOn.erase (hfaults : env.NoFaults) (h : WorksOn env s c u dir S) {old : Bytes}
    (hold : S.file ns = some old) {m : Message}
    (hm : Erases (toPath ns) (md5HashString env (toPath ns ++ old)) m) :
    OnRequest (AnsweredOk env) s (.request c m) ∧
      ∃ dir', WorksOn env (Server.step env s (.request c m)) c { u with dir := some dir' } dir'
        (S.erase ns) := by
  have hfile : S.file ns ≠ none := by
    rw [hold]
    simp
  obtain ⟨i, hi, -⟩ := Disk.look_eq_file.mp ((h.tree.files ns old).mpr hold)
  have hexact := request_erases hfaults h.ready (userDirectory_ne_nil env u) h.path_eq
    (Store.ne_nil hfile) (Or.inl rfl) hi (h.view.found hold) hm
  refine ⟨onRequest_of_session h.session hexact.answered,
    ⟨dir.path, dir.content.filter fun e => ¬ sameKey env.hash e.1 (toPath ns)⟩, ?_⟩
  rw [step_request m h.running h.session, Server.serve]
  obtain ⟨r, hr, -⟩ := hexact.answered
  constructor
  case running =>
    rw [hr]
  case session => exact (Function.update_self ..).trans (congrArg some hexact.entries)
  case ready => exact ⟨h.ready.auth, h.ready.synced, rfl⟩
  case path_eq => exact h.path_eq
  case stream => exact (congrFun hexact.streams u.id).trans h.stream
  case view => exact h.view.erase fun q => dir.rsrc_erase (toPath ns) q
  case tree =>
    have hlook : ∀ k, ¬ s.world.disk.Emptied (userDirectory env u) (userDirectory env u ++ ns) k →
        (handleRequest env s.world u m).world.disk.look k = s.world.disk.look k := by
      intro k hk
      simp only [Disk.look, hexact.kept k hk, hexact.bytes]
    exact h.tree.erase hfile (fun k hk => Disk.look_eq_none.mpr (hexact.gone k hk)) hlook

/-! ### What a check turns down -/

/-- **A request that a check turns down** leaves all as it is. -/
theorem WorksOn.refuse (h : WorksOn env s c u dir S) {m : Message} {replies : MessageQueue}
    {err : ErrType} (htask : taskOf env u m = .refuse replies err) :
    (handleRequest env s.world u m).Answered .error err ∧
      Server.step env s (.request c m) = s := by
  have hserved : handleRequest env s.world u m = answer s.world u replies .error err := by
    rw [handleRequest_eq_perform, htask, perform]
  refine ⟨by rw [hserved]; exact ⟨_, rfl, rfl, rfl⟩, ?_⟩
  rw [step_request m h.running h.session, Server.serve, hserved]
  show Server.mk s.world (Function.update s.sessions c (some u)) none = s
  rw [← h.session, Function.update_eq_self, ← h.running]

end RemoteBackup.Proofs
