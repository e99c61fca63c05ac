import RemoteBackup.Proofs.Twins

/-!
# `RemoteBackup.Proofs.Isolation`: what other users do

A session changes the world by single operations (`Act`), and all that name a path stay below
the directory of the session's user. So nobody else sees them.

* `handleRequest_acts`: every request is a run of acts, when the paths of its ITEMs are plain.
* `Homed`: a stream's file stands below the directory of the stream's user, if it stands
  anywhere. Every act keeps it (`Act.homed`).
* `Acts.unseen`: a user does not see the acts of another.
-/

set_option autoImplicit false

namespace RemoteBackup.Proofs

open Lib Relation

variable {env : Env} {b : Loc} {id : Bytes} {w w' : World}

/-- A stream's file stands below the directory of the stream's user, if it stands anywhere. -/
def Homed (root : Loc) (w : World) : Prop :=
  ∀ id i l, w.openOn id = some i → w.disk.node l = some (.file i) →
    ∃ n : Name, n.1 = id ∧ root ++ [n] <+: l

/-- One operation on the world by a session of the user whose directory is `root ++ [n]`. -/
inductive Act (env : Env) (root : Loc) (n : Name) : World → World → Prop
  | record (w : World) (call : FsCall) (hcall : ∀ p ∈ call.named, root ++ [n] <+: denote p) :
      Act env root n w (w.record call)
  | createDirectories (w : World) (l : Loc) (hl : root ++ [n] <+: l) :
      Act env root n w (w.createDirectories env (toPath l)).1
  | getStream (w : World) (l : Loc) (hl : Disk.Under (root ++ [n]) l) :
      Act env root n w (w.getStream env n.1 (toPath l)).1
  | drain (w : World) (k : Nat) : Act env root n w (w.drain n.1 k)
  | buffer (w : World) (bytes : Bytes) : Act env root n w (w.buffer n.1 bytes)
  | drop (w : World) (x : Option Stream) (hx : ∀ s, x = some s → s.inode = none) :
      Act env root n w (w.withStream n.1 x fun t i ht hi => absurd hi (by simp [hx t ht]))
  | remove (w : World) (l : Loc) (hl : Disk.Under (root ++ [n]) l) :
      Act env root n w (w.remove env (toPath l)).1
  | rename (w : World) (src dst : Loc) (hsrc : Disk.Under (root ++ [n]) src)
      (hdst : Disk.Under (root ++ [n]) dst) :
      Act env root n w (w.rename env (toPath src) (toPath dst)).1

variable {root : Loc} {n m : Name}

/-- A place is below the directory of one user at most. -/
theorem name_eq_of_below {l : Loc} (hm : root ++ [m] <+: l) (hn : root ++ [n] <+: l) : m = n := by
  have hmn := List.prefix_of_prefix_length_le hm hn (by simp)
  exact (List.cons.inj (List.append_cancel_left (hmn.eq_of_length (by simp)))).1

/-- A place below one user's directory is apart from another's. -/
theorem apart_of_below {l : Loc} (hne : m ≠ n) (hl : root ++ [n] <+: l) :
    Disk.Apart (root ++ [m]) l := by
  constructor
  · exact fun hm => hne (name_eq_of_below hm hl)
  · exact fun hlm => hne (name_eq_of_below (List.prefix_refl _) (hl.trans hlm))

/-- A call that names only places below one user's directory is not near another's. -/
theorem far_of_named {call : FsCall} (hne : m ≠ n)
    (hcall : ∀ p ∈ call.named, root ++ [n] <+: denote p) : ¬ Near (root ++ [m]) call := by
  rintro ⟨p, hp, hm⟩
  exact hne (name_eq_of_below hm (hcall p hp))

/-- Another user's stream writes to no file below the directory. -/
theorem Homed.elsewhere (h : Homed root w) {i : Nat} {l : Loc} (hid : id ≠ m.1)
    (hopen : w.openOn id = some i) (hl : root ++ [m] <+: l) : w.disk.node l ≠ some (.file i) := by
  intro hi
  obtain ⟨n, hn, hnl⟩ := h id i l hopen hi
  exact hid (hn ▸ congrArg Subtype.val (name_eq_of_below hnl hl))

/-- The rule for acts: the files come to stand below the directory of the one who acts, and so
do the files of new streams. -/
theorem Homed.of_within (h : Homed root w)
    (hfiles : Disk.FilesWithin (root ++ [n]) w.disk w'.disk)
    (hstreams : ∀ id i, w'.openOn id = some i → w.openOn id = some i ∨
      (id = n.1 ∧ ∀ l, w'.disk.node l = some (.file i) → root ++ [n] <+: l)) :
    Homed root w' := by
  intro id i l hopen hi
  rcases hstreams id i hopen with hold | ⟨rfl, hnew⟩
  · rcases hfiles l i hi with hstood | ⟨hl, rfl | ⟨k, hk, hstood⟩⟩
    · exact h id i l hold hstood
    · -- A stream that was there is not on the new file.
      exact absurd (World.openOn_lt hold) (Nat.lt_irrefl _)
    · obtain ⟨m, hm, hmk⟩ := h id i k hold hstood
      obtain rfl := name_eq_of_below hmk hk
      exact ⟨m, hm, hl⟩
  · exact ⟨n, rfl, hnew l hi⟩

/-- What leaves the files where they are, and opens no stream. -/
theorem Homed.of_node (h : Homed root w) (hnode : w'.disk.node = w.disk.node)
    (hstreams : ∀ id i, w'.openOn id = some i → w.openOn id = some i) : Homed root w' := by
  intro id i l hopen hi
  rw [hnode] at hi
  exact h id i l (hstreams id i hopen) hi

/-- Every stream stays on its file while one of them is written out. -/
theorem openOn_drain (w : World) (id id' : Bytes) (k : Nat) :
    (w.drain id k).openOn id' = w.openOn id' := by
  by_cases hid : id' = id
  · subst hid
    exact w.drain_openOn id' k
  · rw [World.openOn, w.drain_streams_of_ne id k hid, World.openOn]

/-- Every stream stays on its file when bytes are buffered. -/
theorem openOn_buffer (w : World) (id id' : Bytes) (bytes : Bytes) :
    (w.buffer id bytes).openOn id' = w.openOn id' := by
  by_cases hid : id' = id
  · subst hid
    exact w.buffer_openOn id' bytes
  · rw [World.openOn, w.buffer_streams_of_ne id bytes hid, World.openOn]

/-- A fault, or what the call does to the tree. -/
theorem createDirectories_disk_cases (env : Env) (w : World) (p : Path) :
    (w.createDirectories env p).1.disk = w.disk ∨
      (w.createDirectories env p).1.disk = (w.disk.createDirectories p).1 := by
  unfold World.createDirectories
  split
  · exact Or.inl rfl
  · exact Or.inr rfl

/-- The call fails or opens the file. -/
theorem openStream_disk_cases (env : Env) (w : World) (p : Path) :
    (w.openStream env p).1.disk = w.disk ∨
      (w.openStream env p).1.disk = (w.disk.openAppend p).1 := by
  unfold World.openStream
  split
  · exact Or.inl rfl
  · exact Or.inr rfl

/-- The call fails or removes the entry. -/
theorem remove_disk_cases (env : Env) (w : World) (p : Path) :
    (w.remove env p).1.disk = w.disk ∨ (w.remove env p).1.disk = (w.disk.remove p).1 := by
  unfold World.remove
  split
  · exact Or.inl rfl
  · exact Or.inr rfl

/-- The call fails or moves the entry. -/
theorem rename_disk_cases (env : Env) (w : World) (p q : Path) :
    (w.rename env p q).1.disk = w.disk ∨ (w.rename env p q).1.disk = (w.disk.rename p q).1 := by
  unfold World.rename
  split
  · exact Or.inl rfl
  · exact Or.inr rfl

/-- The file that an open finds or makes stands at its path only. -/
theorem openStream_place {env : Env} {w : World} {l k : Loc} {i : Nat}
    (h : (w.openStream env (toPath l)).2 = some i)
    (hk : (w.openStream env (toPath l)).1.disk.node k = some (.file i)) : k = l := by
  rcases w.openStream_cases env (toPath l) with ⟨-, hbad⟩ | ⟨l', j, hl', hj, hdisk, hi⟩ |
    ⟨l', hl', hfree, hdisk, hi⟩
  · rw [h] at hbad
    exact absurd hbad (by simp)
  · obtain rfl := Disk.eq_of_locate_toPath hl'
    rw [h] at hi
    obtain rfl := Option.some.inj hi
    rw [hdisk] at hk
    exact w.disk.no_links k l' i hk hj
  · obtain rfl := Disk.eq_of_locate_toPath hl'
    rw [h] at hi
    obtain rfl := Option.some.inj hi
    rw [hdisk] at hk
    rcases (Disk.addFile_file hfree k _).mp hk with ⟨rfl, -⟩ | hold
    · rfl
    · exact absurd (w.disk.fresh k _ hold) (Nat.lt_irrefl _)

/-- Every act keeps the streams at home. -/
theorem Act.homed (h : Act env root n w w') (hhomed : Homed root w) : Homed root w' := by
  have hsame : ∀ {d : Disk}, d = w.disk → Disk.FilesWithin (root ++ [n]) w.disk d := by
    rintro d rfl
    exact .of_subset fun _ _ hi => hi
  -- Only `getStream` opens a stream. The other acts need where their files can turn up.
  cases h with
  | record call => exact hhomed.of_node rfl fun _ _ h => h
  | createDirectories l hl =>
      refine @Homed.of_within w _ root n hhomed ?_ fun id i hopen => Or.inl ?_
      · rcases createDirectories_disk_cases env w (toPath l) with hdisk | hdisk
        · exact hsame hdisk
        · rw [hdisk]
          exact Disk.filesWithin_createDirectories _ _ _
      · rwa [openOn_congr (w.createDirectories_streams env _)] at hopen
  | getStream l hl =>
      refine @Homed.of_within w _ root n hhomed ?_ fun id i hopen => ?_
      · rw [World.getStream_disk]
        rcases openStream_disk_cases env w (toPath l) with hdisk | hdisk
        · exact hsame hdisk
        · rw [hdisk]
          exact Disk.filesWithin_openAppend hl.below
      · rcases w.getStream_cases env n.1 (toPath l) with ⟨-, -, hstreams⟩ | ⟨-, -, hstreams⟩
        · exact Or.inl (by rwa [openOn_congr hstreams] at hopen)
        · by_cases hid : id = n.1
          · -- The stream is the new one.
            subst hid
            rw [World.openOn, hstreams, Function.update_self] at hopen
            refine Or.inr ⟨rfl, fun k hk => ?_⟩
            rw [World.getStream_disk] at hk
            rw [openStream_place hopen hk]
            exact hl.below
          · rw [World.openOn, hstreams, Function.update_of_ne hid] at hopen
            exact Or.inl hopen
  | drain k =>
      refine hhomed.of_node (w.drain_node n.1 k) fun id i hopen => ?_
      rwa [openOn_drain] at hopen
  | buffer bytes =>
      refine hhomed.of_node (by rw [World.buffer_disk]) fun id i hopen => ?_
      rwa [openOn_buffer] at hopen
  | drop x hx =>
      refine hhomed.of_node rfl fun id i hopen => ?_
      by_cases hid : id = n.1
      · rw [World.openOn, World.withStream_streams, hid, Function.update_self] at hopen
        obtain ⟨s, hs, hi⟩ := Option.bind_eq_some_iff.mp hopen
        rw [hx s hs] at hi
        exact absurd hi (by simp)
      · rwa [World.openOn, World.withStream_streams, Function.update_of_ne hid] at hopen
  | remove l hl =>
      refine @Homed.of_within w _ root n hhomed ?_ fun id i hopen => Or.inl ?_
      · rcases remove_disk_cases env w (toPath l) with hdisk | hdisk
        · exact hsame hdisk
        · rw [hdisk]
          exact Disk.filesWithin_remove _ _ _
      · rwa [openOn_congr (w.remove_streams env _)] at hopen
  | rename src dst hsrc hdst =>
      refine @Homed.of_within w _ root n hhomed ?_ fun id i hopen => Or.inl ?_
      · rcases rename_disk_cases env w (toPath src) (toPath dst) with hdisk | hdisk
        · exact hsame hdisk
        · rw [hdisk]
          exact Disk.filesWithin_rename hsrc.below hdst.below
      · rwa [openOn_congr (w.rename_streams env _ _)] at hopen

/-- A call on paths elsewhere. -/
theorem Unseen.of_call {call : FsCall} (hfar : ¬ Near b call)
    (hdisk : Disk.Untouched b w.disk w'.disk) (hstream : w'.streams id = w.streams id)
    (hcalls : w'.calls = call :: w.calls) : Unseen b id w w' where
  disk := hdisk
  stream := hstream
  calls := by rw [hcalls, List.filter_cons_of_neg (by simpa using hfar)]

/-- What goes out of another user's buffer goes to a file elsewhere. -/
theorem drain_unseen (h : Homed root w) (hid : id ≠ m.1) (k : Nat) :
    Unseen (root ++ [m]) m.1 w (w.drain id k) := by
  rcases w.openOn_cases id with hopen | ⟨i, p, hs⟩
  · rw [World.drain_of_openOn_none hopen]
    exact .refl _ _ w
  · obtain ⟨hdisk, -, hcalls⟩ := World.drain_of_streams hs k
    refine ⟨?_, w.drain_streams_of_ne id k (Ne.symm hid), by rw [hcalls]⟩
    rw [hdisk]
    exact .appendTo (fun l hl => h.elsewhere hid (openOn_of_streams hs) hl) _

/-- Another user's stream is erased unseen. -/
theorem eraseStream_unseen (h : Homed root w) (hid : id ≠ m.1) :
    Unseen (root ++ [m]) m.1 w (w.eraseStream id) where
  disk := (drain_unseen h hid _).disk
  stream := w.eraseStream_streams_of_ne id (Ne.symm hid)
  calls := by rw [World.eraseStream_calls]

/-- Every stream that is left writes where its user is at home. -/
theorem Homed.eraseStream (h : Homed root w) (id : Bytes) : Homed root (w.eraseStream id) := by
  refine h.of_node ?_ fun id' i hopen => ?_
  · rw [World.eraseStream_disk, World.flush_node]
  · by_cases hid : id' = id
    · rw [World.openOn, hid, World.eraseStream_streams_self] at hopen
      exact absurd hopen (by simp)
    · rwa [World.openOn, w.eraseStream_streams_of_ne id hid] at hopen

/-- Another user's act is not seen. -/
theorem Act.unseen (h : Act env root n w w') (hhomed : Homed root w) (hne : m ≠ n) :
    Unseen (root ++ [m]) m.1 w w' := by
  have hid : n.1 ≠ m.1 := fun h => hne (Subtype.ext h.symm)
  have hsame : ∀ {d : Disk}, d = w.disk → Disk.Untouched (root ++ [m]) w.disk d := by
    rintro d rfl
    exact .refl _ _
  -- The calls of one user name nothing near the directory of another.
  have hfar : ∀ {call : FsCall}, (∀ p ∈ call.named, ∃ l, p = toPath l ∧ root ++ [n] <+: l) →
      ¬ Near (root ++ [m]) call := by
    intro call hcall
    refine far_of_named hne fun p hp => ?_
    obtain ⟨l, rfl, hl⟩ := hcall p hp
    rwa [denote_toPath]
  cases h with
  | record call hcall => exact .of_call (far_of_named hne hcall) (.refl _ _) rfl rfl
  | createDirectories l hl =>
      refine .of_call (hfar (by simpa [FsCall.named] using ⟨l, rfl, hl⟩)) ?_ ?_
        (w.createDirectories_calls env _)
      · rcases createDirectories_disk_cases env w (toPath l) with hdisk | hdisk
        · exact hsame hdisk
        · rw [hdisk]
          refine .createDirectories ?_ (apart_of_below hne hl).1
          rintro rfl
          simpa using hl.length_le
      · rw [World.createDirectories_streams]
  | getStream l hl =>
      refine .of_call (hfar (by simpa [FsCall.named] using ⟨l, rfl, hl.below⟩)) ?_ ?_
        (w.getStream_calls env _ _)
      · rw [World.getStream_disk]
        rcases openStream_disk_cases env w (toPath l) with hdisk | hdisk
        · exact hsame hdisk
        · rw [hdisk]
          exact .openAppend (apart_of_below hne hl.below)
      · exact w.getStream_streams_of_ne env n.1 _ (Ne.symm hid)
  | drain k => exact drain_unseen hhomed hid k
  | buffer bytes =>
      exact ⟨hsame (by rw [World.buffer_disk]), w.buffer_streams_of_ne n.1 bytes (Ne.symm hid),
        by rw [World.buffer_calls]⟩
  | drop x hx => exact ⟨.refl _ _, Function.update_of_ne (Ne.symm hid) _ _, rfl⟩
  | remove l hl =>
      refine .of_call (hfar (by simpa [FsCall.named] using ⟨l, rfl, hl.below⟩)) ?_ ?_
        (w.remove_calls env _)
      · rcases remove_disk_cases env w (toPath l) with hdisk | hdisk
        · exact hsame hdisk
        · rw [hdisk]
          exact .remove (apart_of_below hne hl.below)
      · rw [World.remove_streams]
  | rename src dst hsrc hdst =>
      refine .of_call (hfar ?_) ?_ ?_ (w.rename_calls env _ _)
      · intro p hp
        rcases List.mem_pair.mp hp with rfl | rfl
        · exact ⟨src, rfl, hsrc.below⟩
        · exact ⟨dst, rfl, hdst.below⟩
      · rcases rename_disk_cases env w (toPath src) (toPath dst) with hdisk | hdisk
        · exact hsame hdisk
        · rw [hdisk]
          exact .rename (apart_of_below hne hsrc.below) (apart_of_below hne hdst.below)
      · rw [World.rename_streams]

/-! ### A request is a run of acts -/

/-- A run of acts. -/
def Acts (env : Env) (root : Loc) (n : Name) : World → World → Prop :=
  ReflTransGen (Act env root n)

/-- A write to the user's stream is one of the user's acts. -/
theorem write_acts (env : Env) (w : World) (bytes : Bytes) :
    Acts env root n w (w.write env n.1 bytes) :=
  (ReflTransGen.single (.buffer w bytes)).tail (.drain _ _)

/-- So is the write of a whole content, flushed or not. -/
theorem written_acts (env : Env) (w : World) (content : Bytes) (flushed : Bool) :
    Acts env root n w (written env w n.1 content flushed) := by
  unfold written
  split
  · exact (write_acts env w content).tail (.drain _ _)
  · exact write_acts env w content

/-- So is the closing of the stream. -/
theorem closed_acts (env : Env) (root : Loc) (n : Name) (w : World) :
    Acts env root n w (closed w n.1) := by
  have hclose : Acts env root n w (w.close n.1) :=
    (ReflTransGen.single (.drain w _)).tail (.drop _ (some ⟨none, []⟩) (by simp))
  exact (hclose.tail (.drain _ _)).tail (.drop _ none (by simp))

/-- So is the hash of a place in the user's directory. -/
theorem checked_act (env : Env) (w : World) {l : Loc} (hl : root ++ [n] <+: l) :
    Act env root n w (checked w (toPath l)) :=
  .record w _ (by simpa [FsCall.named, denote_toPath] using hl)

/-- The digest check consists of the user's acts. -/
theorem CheckEnds.acts {u : User} {dir : Dir} {replies : MessageQueue} {path digest : Bytes}
    {err : ErrType} {o : Outcome} {l : Loc} (hl : Disk.Under (root ++ [n]) l)
    (h : CheckEnds env w u dir replies (toPath l) path digest err o) :
    Acts env root n w o.world := by
  have hchecked : Acts env root n w (checked w (toPath l)) := .single (checked_act env w hl.below)
  cases h with
  | unreadable => exact hchecked
  | matching => exact hchecked
  | stuck => exact hchecked.tail (.remove _ l hl)
  | mismatch => exact hchecked.tail (.remove _ l hl)

/-- The common part of the two transfers consists of the user's acts. -/
theorem WriteEnds.acts {u : User} {dir : Dir} {view : TlvView} {replies : MessageQueue}
    {path digest early : Bytes} {flushed : Bool} {failed : ErrType}
    {Last : World → Outcome → Prop} {o : Outcome} {l : Loc} (hid : u.id = n.1)
    (hl : Disk.Under (root ++ [n]) l) (hlast : ∀ w o, Last w o → Acts env root n w o.world)
    (h : WriteEnds env w u dir view replies path digest early (toPath l) flushed failed Last o) :
    Acts env root n w o.world := by
  have hopened : Acts env root n w (opened env w u.id (toPath l)) := by
    rw [hid]
    exact .single (.getStream w l hl)
  have hwritten : ∀ content,
      Acts env root n w (written env (opened env w u.id (toPath l)) u.id content flushed) := by
    intro content
    refine hopened.trans ?_
    rw [hid]
    exact written_acts env _ content flushed
  cases h with
  | noStream => exact hopened
  | badContent => exact hopened
  | badEnd _ content => exact hwritten content
  | stored _ content => exact hwritten content
  | last _ content _ _ _ h => exact (hwritten content).trans (hlast _ _ h)

/-- A CREATE consists of its user's acts. -/
theorem createTransfer_acts {u : User} {dir : Dir} (h : SessionOf (root ++ [n]) n.1 u dir)
    (env : Env) (w : World) (view : TlvView) (replies : MessageQueue) {path : Path}
    (hp : PlainPath path) (digest : Bytes) :
    Acts env root n w (createTransfer env w u dir view replies path digest).world := by
  obtain ⟨l, k, hpath, hl⟩ := h.plain (by simp) hp
  have hcreated : Acts env root n w (created env w dir path) := by
    rw [created, hpath, parentPath_toPath]
    exact .single (.createDirectories w l hl)
  have hends := createTransfer_ends env w u dir view replies path digest
  generalize createTransfer env w u dir view replies path digest = o at hends ⊢
  cases hends with
  | noParent => exact hcreated
  | hasParent _ _ hwrite =>
      rw [hpath] at hwrite
      refine hcreated.trans (hwrite.acts h.id (under_concat hl k) fun w' o hcheck => ?_)
      rw [h.id] at hcheck
      exact (closed_acts env root n w').trans (hcheck.acts (under_concat hl k))

/-- The last chunk of an UPDATE consists of the user's acts. -/
theorem ReplaceEnds.acts {u : User} {dir : Dir} {replies : MessageQueue} {path digest : Bytes}
    {o : Outcome} {l : Loc} {k : Name} (hid : u.id = n.1) (hl : root ++ [n] <+: l)
    (h : ReplaceEnds env u dir replies (toPath (l ++ [k])) path digest w o) :
    Acts env root n w o.world := by
  obtain ⟨k', -, htemp⟩ := tempPath_toPath l k
  have hremoved : Acts env root n w (removed env (closed w u.id) (toPath (l ++ [k]))) := by
    rw [hid]
    exact (closed_acts env root n w).tail (.remove _ _ (under_concat hl k))
  have hrenamed : Acts env root n w (renamed env (closed w u.id) (toPath (l ++ [k]))) := by
    rw [renamed, htemp]
    exact hremoved.tail (.rename _ _ _ (under_concat hl k') (under_concat hl k))
  cases h with
  | notRemoved => exact hremoved
  | notRenamed => exact hrenamed
  | replaced _ _ _ hcheck => exact hrenamed.trans (hcheck.acts (under_concat hl k))

/-- An UPDATE consists of its user's acts. -/
theorem updateTransfer_acts {u : User} {dir : Dir} (h : SessionOf (root ++ [n]) n.1 u dir)
    (env : Env) (w : World) (view : TlvView) (replies : MessageQueue) {path : Path}
    (hp : PlainPath path) (digest oldDigest : Bytes) :
    Acts env root n w (updateTransfer env w u dir view replies path digest oldDigest).world := by
  obtain ⟨l, k, hpath, hl⟩ := h.plain (by simp) hp
  obtain ⟨k', -, htemp⟩ := tempPath_toPath l k
  have hends := updateTransfer_ends env w u dir view replies path digest oldDigest
  rw [hpath, htemp] at hends
  exact hends.acts h.id (under_concat hl k') fun w' o hreplace => hreplace.acts h.id hl

/-- The loop climbs from a place below the user's directory, and stops at the directory. -/
theorem cleanup_acts (env : Env) (fuel : Nat) (w : World) (ms : Loc) :
    Acts env root n w
      (cleanup env (toPath (root ++ [n])) fuel w (toPath (root ++ [n] ++ ms))) := by
  induction fuel generalizing w ms with
  | zero => exact .refl
  | succ fuel ih =>
      have hround := cleanup_round env (toPath (root ++ [n])) fuel w (toPath (root ++ [n] ++ ms))
      generalize cleanup env (toPath (root ++ [n])) (fuel + 1) w (toPath (root ++ [n] ++ ms)) = w'
        at hround ⊢
      have hlooked : Acts env root n w (w.record (.isEmpty (toPath (root ++ [n] ++ ms)))) := by
        refine .single (.record w _ ?_)
        simp [FsCall.named, denote_toPath]
      have hemptied : ms ≠ [] → Acts env root n w (emptied env w (toPath (root ++ [n] ++ ms))) :=
        fun hms => hlooked.tail (.remove _ _ (Disk.under_append _ hms))
      -- Above the user's directory the loop would not have come.
      have hbelow : elements (toPath (root ++ [n] ++ ms)) ≠ elements (toPath (root ++ [n])) →
          ms ≠ [] := by
        rintro hat rfl
        exact hat (by rw [List.append_nil])
      cases hround with
      | atDir => exact .refl
      | notEmpty => exact hlooked
      | failed hat => exact hemptied (hbelow hat)
      | next hat =>
          obtain ⟨ms, k, rfl⟩ := ms.eq_nil_or_concat'.resolve_left (hbelow hat)
          refine (hemptied (hbelow hat)).trans ?_
          rw [← List.append_assoc, parentPath_toPath]
          exact ih _ ms

/-- An ERASE consists of its user's acts. -/
theorem eraseEntry_acts {u : User} {dir : Dir} (h : SessionOf (root ++ [n]) n.1 u dir) (env : Env)
    (w : World) (replies : MessageQueue) {path : Path} (hp : PlainPath path) :
    Acts env root n w (eraseEntry env w u dir replies path).world := by
  obtain ⟨l, k, hpath, hl⟩ := h.plain (by simp) hp
  obtain ⟨ms, rfl⟩ := hl
  have hremoved : Acts env root n w (removed env w (append dir.path path)) := by
    rw [hpath]
    exact .single (.remove w _ (under_concat (List.prefix_append _ _) k))
  unfold eraseEntry
  dsimp only
  cases hremove : (w.remove env (append dir.path path)).2 with
  | false =>
      rw [eq_of_snd hremove]
      exact hremoved
  | true =>
      rw [eq_of_snd hremove]
      refine hremoved.trans ?_
      rw [hpath, parentPath_toPath, h.path]
      exact cleanup_acts env _ _ ms

/-- An entry of the traversal takes acts of the user only. -/
theorem syncEntry_acts (env : Env) (w : World) (dir : Dir) (replies : MessageQueue) {l : Loc}
    (hl : root ++ [n] <+: l) : Acts env root n w (syncEntry env w dir replies (toPath l)).1 := by
  have hregular : Acts env root n w (w.record (.isRegularFile (toPath l))) :=
    .single (.record w _ (by simpa [FsCall.named, denote_toPath] using hl))
  have hread : Acts env root n w (checked (w.record (.isRegularFile (toPath l))) (toPath l)) :=
    hregular.tail (checked_act env _ hl)
  unfold syncEntry
  dsimp only
  split
  · exact hregular
  split
  · generalize (toPath l).drop dir.path.length = relativePath
    have hfst :=
      World.md5Hash_fst env (w.record (.isRegularFile (toPath l))) (toPath l) relativePath
    generalize (w.record (.isRegularFile (toPath l))).md5Hash env (toPath l) relativePath = read
      at hfst ⊢
    obtain ⟨w', t | digest⟩ := read
    · obtain rfl := hfst
      exact hread
    -- The insertion changes the view and nothing of the world.
    · obtain rfl := hfst
      dsimp only
      generalize dir.insertOrAssign env.hash relativePath ⟨true, digest⟩ = inserted
      obtain ⟨dir', _ | _⟩ := inserted
      · exact hread
      · exact hread
  · exact hregular

/-- The traversal consists of the user's acts. Induction on the entries. -/
theorem syncLoop_acts (env : Env) (ls : List Loc) (hls : ∀ l ∈ ls, root ++ [n] <+: l) (w : World)
    (dir : Dir) (replies : MessageQueue) :
    Acts env root n w (syncLoop env (ls.map toPath) w dir replies).1 := by
  induction ls generalizing w dir replies with
  | nil => exact .refl
  | cons l ls ih =>
      have hl := hls l List.mem_cons_self
      have hentry := syncEntry_acts env w dir replies hl
      rw [List.map_cons]
      unfold syncLoop
      generalize syncEntry env w dir replies (toPath l) = r at hentry ⊢
      obtain ⟨w', dir', replies', _ | _ | t⟩ := r
      · have hadvance : Acts env root n w (w'.record (.advance (toPath l))) :=
          hentry.tail (.record w' _ (by simpa [FsCall.named, denote_toPath] using hl))
        dsimp only
        split
        · exact hadvance
        · exact hadvance.trans (ih (fun k hk => hls k (List.mem_cons_of_mem _ hk)) _ dir' replies')
      · exact hentry
      · exact hentry

/-- A SYNC consists of its user's acts. -/
theorem handleSync_acts {u : User} {dir : Dir} (h : SessionOf (root ++ [n]) n.1 u dir) (env : Env)
    (w : World) (replies : MessageQueue) :
    Acts env root n w (handleSync env w u replies).world := by
  have hptr : u.dirPtr = .ok dir := by simp [User.dirPtr, h.holds]
  have hiterate : Acts env root n w (w.record (.iterate dir.path)) := by
    rw [h.path]
    exact .single (.record w _ (by simp [FsCall.named, denote_toPath]))
  unfold handleSync
  rw [hptr]
  simp only [attempt]
  cases hentries : iterate env w dir.path with
  | none => exact hiterate
  | some entries =>
      rw [h.path] at hentries
      obtain ⟨-, rfl⟩ := iterate_below (by simp) hentries
      -- The iterator meets what is below the directory it was opened on.
      have hbelow : ∀ l ∈ env.visit (w.disk.entriesBelow (root ++ [n])), root ++ [n] <+: l :=
        fun l hl => (mem_entriesBelow.mp ((env.visit_perm _).mem_iff.mp hl)).1
      have hloop := syncLoop_acts env _ hbelow (w.record (.iterate dir.path)) dir replies
      dsimp only
      generalize syncLoop env _ (w.record (.iterate dir.path)) dir replies = r at hloop ⊢
      have hall := hiterate.trans hloop
      obtain ⟨w', dir', replies', _ | _ | _ | _⟩ := r
      all_goals exact hall

/-- Every request of a session of the user is a run of acts. -/
theorem handleRequest_acts {u : User} {dir : Dir} (h : SessionOf (root ++ [n]) n.1 u dir)
    (env : Env) (w : World) {m : Message} (hm : PlainItems m) :
    Acts env root n w (handleRequest env w u m).world := by
  rw [handleRequest_eq_perform]
  cases htask : taskOf env u m with
  | stop => exact .refl
  | refuse => exact .refl
  | keepAlive => exact .refl
  | authenticate => exact .refl
  | sync replies => exact handleSync_acts h env w replies
  -- A transfer is on a plain path below the user's directory.
  | create dir' view replies path digest =>
      obtain ⟨-, -, htype, hsigned, -, hdir, -⟩ := passed_taskOf htask (by simp) (by simp)
      obtain rfl := Option.some.inj (hdir.symm.trans h.holds)
      exact createTransfer_acts h env w view replies
        (hm _ (Or.inl rfl) htype path digest hsigned) digest
  | update dir' view replies path digest oldDigest =>
      obtain ⟨-, -, htype, hsigned, -, hdir, -⟩ := passed_taskOf htask (by simp) (by simp)
      obtain rfl := Option.some.inj (hdir.symm.trans h.holds)
      exact updateTransfer_acts h env w view replies
        (hm _ (Or.inr (Or.inl rfl)) htype path digest hsigned) digest oldDigest
  | erase dir' replies path =>
      obtain ⟨-, -, htype, hdir, rsrc, -, hsigned⟩ := passed_taskOf htask (by simp) (by simp)
      obtain rfl := Option.some.inj (hdir.symm.trans h.holds)
      exact eraseEntry_acts h env w replies (hm _ (Or.inr (Or.inr rfl)) htype path _ hsigned)

/-- A session without a directory does nothing to the world. -/
theorem handleRequest_noDir {u : User} (h : u.dir = none) (env : Env) (w : World) (m : Message) :
    (handleRequest env w u m).world = w := by
  rw [handleRequest_eq_perform]
  cases htask : taskOf env u m with
  | stop => rfl
  | refuse => rfl
  | keepAlive => rfl
  | authenticate => rfl
  | sync replies => simp [perform, handleSync, User.dirPtr, h, attempt, halted]
  | create =>
      obtain ⟨-, -, -, -, -, hdir, -⟩ := passed_taskOf htask (by simp) (by simp)
      exact absurd (h.symm.trans hdir) (by simp)
  | update =>
      obtain ⟨-, -, -, -, -, hdir, -⟩ := passed_taskOf htask (by simp) (by simp)
      exact absurd (h.symm.trans hdir) (by simp)
  | erase =>
      obtain ⟨-, -, -, hdir, -⟩ := passed_taskOf htask (by simp) (by simp)
      exact absurd (h.symm.trans hdir) (by simp)

/-- After a user's acts every stream still writes where its user is at home. -/
theorem Acts.homed (h : Acts env root n w w') (hhomed : Homed root w) : Homed root w' := by
  induction h with
  | refl => exact hhomed
  | tail _ hact ih => exact hact.homed ih

/-- A run of another user's acts is not seen. -/
theorem Acts.unseen (h : Acts env root n w w') (hhomed : Homed root w) (hne : m ≠ n) :
    Unseen (root ++ [m]) m.1 w w' := by
  induction h with
  | refl => exact .refl _ _ w
  | tail hacts hact ih => exact ih.trans (hact.unseen (Acts.homed hacts hhomed) hne)

end RemoteBackup.Proofs
