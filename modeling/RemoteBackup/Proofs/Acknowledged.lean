import RemoteBackup.Proofs.SyncedView
import RemoteBackup.Proofs.SessionLife
import RemoteBackup.Proofs.Signs

/-!
# `RemoteBackup.Proofs.Acknowledged`: what a later SYNC lists

The sessions of one user, one after another. Nothing on the disk records what was
acknowledged, so a SYNC lists whatever files it finds.

* `handleSync_items`: the ITEMs of a SYNC are the entries of the new view.
* `Backed`: every file of the user that no session looks after was acknowledged, and so was
  every synced entry of the session that is live. `backed_step`, `backed_run`: the invariant
  along a run in which no session ends in the middle of a transfer.
* `synced_items_acknowledged`: what a SYNC lists in such a run.
-/

set_option autoImplicit false

namespace RemoteBackup.Proofs

open Lib Relation

/-! ### The ITEMs of a SYNC -/

/-- The sign of an entry. -/
def entrySign (e : Path × Resource) : Bytes := createSign e.1 e.2.digest

/-- The view and the queue grew by the same entries. -/
def Lists (dir dir' : Dir) (q q' : MessageQueue) : Prop :=
  ∃ new, dir'.content = dir.content ++ new ∧ ∀ items, Itemized q MsgType.sync.toByte items →
    Itemized q' MsgType.sync.toByte (items ++ new.map entrySign)

/-- Nothing was listed. -/
theorem Lists.refl (dir : Dir) (q : MessageQueue) : Lists dir dir q q :=
  ⟨[], by simp, fun items h => by simpa using h⟩

/-- What two parts of the traversal list they list together. -/
theorem Lists.trans {dir dir' dir'' : Dir} {q q' q'' : MessageQueue} (h : Lists dir dir' q q')
    (h' : Lists dir' dir'' q' q'') : Lists dir dir'' q q'' := by
  obtain ⟨new, hcontent, hitems⟩ := h
  obtain ⟨new', hcontent', hitems'⟩ := h'
  refine ⟨new ++ new', by rw [hcontent', hcontent, List.append_assoc], fun items hq => ?_⟩
  rw [List.map_append, ← List.append_assoc]
  exact hitems' _ (hitems items hq)

/-- An entry of the traversal that does not stop it puts the same entry into the view and into
the reply. -/
theorem syncEntry_lists {env : Env} {w w' : World} {dir dir' : Dir} {q q' : MessageQueue} {p : Path}
    (h : syncEntry env w dir q p = (w', dir', q', .done)) : Lists dir dir' q q' := by
  unfold syncEntry at h
  dsimp only at h
  split at h
  · exact absurd (congrArg (fun r => r.2.2.2) h) (by simp)
  split at h
  · generalize p.drop dir.path.length = relativePath at h
    generalize (w.record (.isRegularFile p)).md5Hash env p relativePath = read at h
    obtain ⟨w1, t | digest⟩ := read
    · exact absurd (congrArg (fun r => r.2.2.2) h) (by simp)
    · have hinsert := @insertOrAssign_inserted env.hash dir relativePath ⟨true, digest⟩
      dsimp only at h
      generalize dir.insertOrAssign env.hash relativePath ⟨true, digest⟩ = inserted at h hinsert
      obtain ⟨dir1, _ | _⟩ := inserted
      · exact absurd (congrArg (fun r => r.2.2.2) h) (by simp)
      -- A regular file whose key was free: one entry and one ITEM.
      · simp only [Prod.mk.injEq] at h
        obtain ⟨-, rfl, rfl, -⟩ := h
        exact ⟨[(relativePath, ⟨true, digest⟩)], hinsert rfl, fun items hq => hq.addItem _⟩
  · simp only [Prod.mk.injEq] at h
    obtain ⟨-, rfl, rfl, -⟩ := h
    exact .refl dir q

/-- So does the whole traversal. Induction on the entries still to come. -/
theorem syncLoop_lists {env : Env} (ps : List Path) {w w' : World} {dir dir' : Dir}
    {q q' : MessageQueue} (h : syncLoop env ps w dir q = (w', dir', q', .done)) :
    Lists dir dir' q q' := by
  induction ps generalizing w dir q with
  | nil =>
      simp only [syncLoop, Prod.mk.injEq] at h
      obtain ⟨-, rfl, rfl, -⟩ := h
      exact .refl dir q
  | cons p ps ih =>
      unfold syncLoop at h
      generalize hentry : syncEntry env w dir q p = entry at h
      obtain ⟨w1, dir1, q1, _ | _ | t⟩ := entry
      · dsimp only at h
        split at h
        · exact absurd (congrArg (fun r => r.2.2.2) h) (by simp)
        · exact (syncEntry_lists hentry).trans (ih h)
      · exact absurd (congrArg (fun r => r.2.2.2) h) (by simp)
      · exact absurd (congrArg (fun r => r.2.2.2) h) (by simp)

/-- A SYNC of an empty view that is answered OK lists the entries of the new view. -/
theorem handleSync_items {env : Env} {w : World} {u : User} {dir : Dir} {q : MessageQueue}
    (hdir : u.dir = some dir) (hempty : dir.content = [])
    (hq : Itemized q MsgType.sync.toByte [])
    (h : (handleSync env w u q).Answered .ok .none) :
    ∃ dir' r, (handleSync env w u q).user.dir = some dir' ∧
      (handleSync env w u q).result = .ok r ∧
      Shaped r MsgType.sync.toByte (dir'.content.map entrySign) := by
  have hptr : u.dirPtr = .ok dir := by simp [User.dirPtr, hdir]
  simp only [handleSync, hptr, attempt] at h ⊢
  generalize iterate env w dir.path = entries at h ⊢
  cases entries with
  | none => exact absurd h not_answered_error
  | some entries =>
      dsimp only at h ⊢
      generalize hloop : syncLoop env entries (w.record (.iterate dir.path)) dir q = r at h ⊢
      obtain ⟨w', dir', q', _ | _ | _ | _⟩ := r
      · obtain ⟨new, hcontent, hitems⟩ := syncLoop_lists entries hloop
        rw [hempty, List.nil_append] at hcontent
        have hlisted := hitems [] hq
        rw [List.nil_append, ← hcontent] at hlisted
        exact ⟨dir', _, rfl, rfl, hlisted.close (Or.inl rfl) .none⟩
      · exact absurd h not_answered_error
      · exact absurd h not_answered_error
      · exact absurd h not_answered_halted

/-- The queue of a SYNC that got through to its handler is fresh. -/
theorem taskOf_sync_queue {env : Env} {u : User} {m : Message} {q : MessageQueue}
    (h : taskOf env u m = .sync q) : q = MessageQueue.ofType MsgType.sync.toByte := by
  obtain ⟨hauth, hsynced, htype⟩ := passed_taskOf h (by simp) (by simp)
  have hroute : route u MsgType.sync.toByte = .sync := by simp [route, hauth, hsynced]
  rw [taskOf, htype] at h
  cases hnext : (TlvView.ofMessage m).nextTlv with
  | error e =>
      rw [hnext] at h
      exact absurd h (by simp [check])
  | ok next =>
      obtain ⟨more, view⟩ := next
      cases more with
      | false =>
          rw [hnext] at h
          exact absurd h (by simp [check])
      | true =>
          simp only [hnext, check, hroute, Bool.not_true, Bool.false_eq_true, if_false,
            Task.sync.injEq] at h
          exact h.symm

/-! ### What a request enters into the view -/

/-- The last chunk of a CREATE or an UPDATE of `path` with this digest is answered OK. -/
structure Acknowledges (env : Env) (w : World) (u : User) (m : Message) (path digest : Bytes) :
    Prop where
  kind : m.msgType = some MsgType.create.toByte ∨ m.msgType = some MsgType.update.toByte
  signed : Signed m path digest
  isLast : (TlvView.ofMessage m).verifyEnd = .ok true
  answered : (handleRequest env w u m).Answered .ok .none

/-- An entry that is new after a request has the path of the request, and is synced only when
the request was acknowledged. -/
def NewEntry (env : Env) (w : World) (u : User) (m : Message) (e : Path × Resource) : Prop :=
  ∃ digest, Signed m e.1 digest ∧
    (e.2.synced = true → Acknowledges env w u m e.1 e.2.digest)

/-- The entries that a chunk leaves: those that were there, and the one that it has noted. -/
theorem WriteEnds.entries {env : Env} {w : World} {u : User} {dir : Dir} {view : TlvView}
    {replies : MessageQueue} {path digest early : Bytes} {target : Path} {flushed : Bool}
    {failed : ErrType} {Last : World → Outcome → Prop} {o : Outcome}
    (h : WriteEnds env w u dir view replies path digest early target flushed failed Last o)
    (hdir : u.dir = some dir) (hkeys : ∀ e ∈ dir.content, sameKey env.hash e.1 path → e.1 = path)
    {New : Path × Resource → Prop} (hearly : ∀ x, New (path, ⟨false, x⟩))
    (hlast : view.verifyEnd = .ok true → ∀ w, Last w o → ∀ dir', o.user.dir = some dir' →
      ∀ e ∈ dir'.content, e ∈ dir.content ∨ New e) :
    ∀ dir', o.user.dir = some dir' → ∀ e ∈ dir'.content, e ∈ dir.content ∨ New e := by
  intro dir' hdir' e he
  have hkept : ∀ {u' : User}, u'.dir = u.dir → u'.dir = some dir' → e ∈ dir.content := by
    intro u' hsame hu'
    rw [hu', hdir] at hsame
    exact Option.some.inj hsame ▸ he
  cases h with
  | noStream => exact Or.inl (hkept rfl hdir')
  | badContent => exact Or.inl (hkept rfl hdir')
  | badEnd => exact Or.inl (hkept rfl hdir')
  | stored =>
      obtain rfl := Option.some.inj hdir'
      -- Only the first chunk writes an entry.
      cases hfirst : (w.streams u.id).isNone with
      | true =>
          rw [hfirst] at he
          rcases (Dir.mem_insertOrAssign hkeys e).mp he with rfl | ⟨-, hold⟩
          · exact Or.inr (hearly early)
          · exact Or.inl hold
      | false =>
          rw [hfirst] at he
          exact Or.inl he
  | last _ content _ hend _ ho => exact hlast hend _ ho dir' hdir' e he

/-- The entries that the digest check leaves: on a match the noted one, else it goes. -/
theorem CheckEnds.entries {env : Env} {w : World} {u : User} {dir : Dir} {replies : MessageQueue}
    {absolutePath path digest : Bytes} {err : ErrType} {o : Outcome}
    (h : CheckEnds env w u (noteChunk env dir path (some ⟨true, digest⟩)) replies absolutePath path
      digest err o) {r : Reply} (hr : o.result = .ok r)
    (hkeys : ∀ e ∈ dir.content, sameKey env.hash e.1 path → e.1 = path) {dir' : Dir}
    (hdir' : o.user.dir = some dir') {e : Path × Resource} (he : e ∈ dir'.content) :
    e ∈ dir.content ∨ (e = (path, ⟨true, digest⟩) ∧ o.Answered .ok .none) := by
  cases h with
  | unreadable => cases hr
  | stuck => cases hr
  | matching =>
      obtain rfl := Option.some.inj hdir'
      rcases (Dir.mem_insertOrAssign hkeys e).mp he with rfl | ⟨-, hold⟩
      · exact Or.inr ⟨rfl, _, rfl, rfl, rfl⟩
      · exact Or.inl hold
  | mismatch =>
      obtain rfl := Option.some.inj hdir'
      have hnoted := List.mem_of_mem_filter he
      rcases (Dir.mem_insertOrAssign hkeys e).mp hnoted with rfl | ⟨-, hold⟩
      · -- The noted entry is the one that goes.
        have hgone := (List.mem_filter.mp he).2
        exact absurd (sameKey_refl path) (by simpa using hgone)
      · exact Or.inl hold

/-- After a request of a synced session every entry was there before, or it is new. -/
theorem request_entries {env : Env} {w : World} {u : User} {m : Message} {dir : Dir} {r : Reply}
    (hauth : u.isAuth = true) (hsynced : u.isSynced = true) (hdir : u.dir = some dir) {d : Loc}
    (hview : PlainView d dir) (hplain : PlainRequest m)
    (hr : (handleRequest env w u m).result = .ok r) {dir' : Dir}
    (hdir' : (handleRequest env w u m).user.dir = some dir') {e : Path × Resource}
    (he : e ∈ dir'.content) : e ∈ dir.content ∨ NewEntry env w u m e := by
  have heq := handleRequest_eq_perform env w u m
  have hkept : (handleRequest env w u m).user.dir = u.dir → e ∈ dir.content := by
    intro hsame
    rw [hdir', hdir] at hsame
    exact Option.some.inj hsame ▸ he
  -- Only a transfer writes an entry, so every other end leaves `dir` or takes from it.
  cases htask : taskOf env u m with
  | stop h =>
      rw [heq, htask] at hr
      cases hr
  | refuse | keepAlive =>
      rw [htask] at heq
      exact Or.inl (hkept (by rw [heq]; rfl))
  | authenticate =>
      obtain ⟨hnot, -⟩ := passed_taskOf htask (by simp) (by simp)
      exact absurd (hauth.symm.trans hnot) (by simp)
  | sync =>
      obtain ⟨-, hnot, -⟩ := passed_taskOf htask (by simp) (by simp)
      exact absurd (hsynced.symm.trans hnot) (by simp)
  | create dir1 view replies path digest =>
      obtain ⟨-, -, htype, hsigned, hraw, hdir1, -⟩ := passed_taskOf htask (by simp) (by simp)
      obtain rfl := Option.some.inj (hdir.symm.trans hdir1)
      have hkeys := hview.keys (hplain _ _ hsigned) env.hash
      rw [htask, perform] at heq
      have hends := createTransfer_ends env w u dir view replies path digest
      rw [← heq] at hends
      generalize ho : handleRequest env w u m = o at hends hr hdir' hkept
      cases hends with
      | noParent => exact Or.inl (hkept rfl)
      | hasParent _ _ hwrite =>
          refine hwrite.entries hdir hkeys (fun x => ⟨digest, hsigned, by simp⟩) ?_ dir' hdir' e he
          -- The synced entry of a last chunk stays only if the digest check answers OK.
          intro hend w' hcheck dir2 hdir2 e' he'
          refine (hcheck.entries hr hkeys hdir2 he').imp_right ?_
          rintro ⟨rfl, hok⟩
          exact ⟨digest, hsigned, fun _ => ⟨Or.inl htype, hsigned,
            (verifyEnd_of_raw hraw).symm.trans hend, ho ▸ hok⟩⟩
  | update dir1 view replies path digest oldDigest =>
      obtain ⟨-, -, htype, hsigned, hraw, hdir1, -⟩ := passed_taskOf htask (by simp) (by simp)
      obtain rfl := Option.some.inj (hdir.symm.trans hdir1)
      have hkeys := hview.keys (hplain _ _ hsigned) env.hash
      rw [htask, perform] at heq
      have hends := updateTransfer_ends env w u dir view replies path digest oldDigest
      rw [← heq] at hends
      generalize ho : handleRequest env w u m = o at hends hr hdir' hkept
      refine hends.entries hdir hkeys (fun x => ⟨digest, hsigned, by simp⟩) ?_ dir' hdir' e he
      intro hend w' hreplace dir2 hdir2 e' he'
      cases hreplace with
      | notRemoved => cases hr
      | notRenamed => cases hr
      | replaced _ _ _ hcheck =>
          refine (hcheck.entries hr hkeys hdir2 he').imp_right ?_
          rintro ⟨rfl, hok⟩
          exact ⟨digest, hsigned, fun _ => ⟨Or.inr htype, hsigned,
            (verifyEnd_of_raw hraw).symm.trans hend, ho ▸ hok⟩⟩
  | erase dir1 replies path =>
      obtain ⟨-, -, -, hdir1, -⟩ := passed_taskOf htask (by simp) (by simp)
      obtain rfl := Option.some.inj (hdir.symm.trans hdir1)
      rw [htask, perform] at heq
      rw [heq] at hdir'
      unfold eraseEntry at hdir'
      dsimp only at hdir'
      split at hdir'
      · exact Or.inl (Option.some.inj (hdir.symm.trans hdir') ▸ he)
      · obtain rfl := Option.some.inj hdir'
        exact Or.inl (List.mem_of_mem_filter he)

/-! ### Files that were acknowledged -/

/-- Every file below `d` was acknowledged, with the digest that it has. -/
def Vouched (env : Env) (disk : Disk) (d : Loc) (Acked : Path → Bytes → Prop) : Prop :=
  ∀ l i, d <+: l → disk.node l = some (.file i) →
    Acked (toPath (l.drop d.length))
      (fileDigest env (toPath (l.drop d.length)) (disk.content i))

/-- Files that were vouched for are so while they stay, and while nothing acknowledged is forgotten.
-/
theorem Vouched.mono {env : Env} {disk disk' : Disk} {d : Loc} {A A' : Path → Bytes → Prop}
    (h : Vouched env disk d A) (hA : ∀ p x, A p x → A' p x)
    (hfiles : ∀ l i, d <+: l → disk'.node l = some (.file i) →
      disk.node l = some (.file i) ∧ disk'.content i = disk.content i) :
    Vouched env disk' d A' := by
  intro l i hl hi
  obtain ⟨hnode, hcontent⟩ := hfiles l i hl hi
  rw [hcontent]
  exact hA _ _ (h l i hl hnode)

/-- A stream that ends hands its last bytes over. -/
theorem Vouched.eraseStream {env : Env} {w : World} {d : Loc} {A : Path → Bytes → Prop} {id : Bytes}
    (h : Vouched env w.disk d A)
    (hopen : ∀ l i, d <+: l → w.disk.node l = some (.file i) → w.openOn id ≠ some i) :
    Vouched env (w.eraseStream id).disk d A := by
  rw [World.eraseStream_disk]
  refine h.mono (fun _ _ hA => hA) fun l i hl hi => ?_
  rw [World.flush_node] at hi
  exact ⟨hi, World.flush_content_of_ne w id (hopen l i hl hi)⟩

/-- The spelling of a path that SYNC uses: a separator before each component. -/
def Canonical (p : Path) : Prop := ∃ ns : Loc, ns ≠ [] ∧ p = toPath ns

/-- A path spelled as SYNC spells it is plain. -/
theorem Canonical.plain {p : Path} (h : Canonical p) : PlainPath p := by
  obtain ⟨ns, hns, rfl⟩ := h
  exact ⟨ns, hns, Or.inl rfl⟩

/-- The synced session on connection `c`: its view mirrors the files, and its synced entries
were acknowledged. -/
structure Keeps (env : Env) (s : Server) (c : Nat) (Acked : Path → Bytes → Prop) (u : User)
    (dir : Dir) : Prop where
  mirrored : Mirrored env s c u dir
  canonical : ∀ e ∈ dir.content, Canonical e.1
  acked : ∀ e ∈ dir.content, e.2.synced = true → Acked e.1 e.2.digest

/-- When no entry is unsynced, the files that the session leaves were acknowledged, and its
stream is on none of them. -/
theorem Keeps.vouched {env : Env} {s : Server} {c : Nat} {A : Path → Bytes → Prop} {u : User}
    {dir : Dir} (h : Keeps env s c A u dir) (hall : ∀ e ∈ dir.content, e.2.synced = true) :
    Vouched env s.world.disk (userDirectory env u) A ∧
      ∀ l i, userDirectory env u <+: l → s.world.disk.node l = some (.file i) →
        s.world.openOn u.id ≠ some i := by
  have hunsynced : ∀ p x, (p, ⟨false, x⟩) ∉ dir.content := fun p x hp =>
    absurd (hall _ hp) (by simp)
  constructor
  · intro l i hl hi
    rcases h.mirrored.mirrors.exactly_one ⟨hl, hi⟩ with
      ⟨p, ⟨synced, x, hp, hplace⟩, -⟩ | ⟨p, x, hp, -⟩
    · obtain rfl : synced = true := hall _ hp
      obtain ⟨f, hf, hdigest⟩ := h.mirrored.mirrors.synced hp
      rw [hplace] at hf
      obtain rfl := h.mirrored.mirrors.one_file _ _ _ ⟨hl, hi⟩ hf
      -- A key in the spelling of SYNC is written from the place of its file.
      obtain ⟨ns, hns, rfl⟩ := h.canonical _ hp
      rw [place_toPath (userDirectory_ne_nil env u) hns] at hplace
      rw [← hplace, List.drop_left]
      exact hdigest ▸ h.acked _ hp rfl
    · exact absurd hp (hunsynced p x)
  · intro l i hl hi hopen
    rcases h.mirrored.mirrors.owned i hopen with hnone | ⟨p, x, hp, -⟩ | ⟨p, x, hp, -⟩
    · exact hnone l ⟨hl, hi⟩
    · exact hunsynced p x hp
    · exact hunsynced p x hp

/-- What a SYNC answered OK leaves: a fresh view of the user's directory, which the reply lists. -/
theorem synced_view {env : Env} {s : Server} {c : Nat} {m : Message} {u : User} {d : Loc}
    (hs : Reached env s) (hsync : AnswersOk env s c m .sync) (hc : s.sessions c = some u)
    (hd : d ≠ []) (hpath : ∀ dir, u.dir = some dir → dir.path = toPath d) :
    ∃ dir r, (handleRequest env s.world u m).user.dir = some dir ∧ FreshView env s.world d dir ∧
      (handleRequest env s.world u m).result = .ok r ∧
      Shaped r MsgType.sync.toByte (dir.content.map entrySign) := by
  obtain ⟨hhalt, u', hc', htype, hanswer⟩ := hsync
  obtain rfl := Option.some.inj (hc.symm.trans hc')
  have heq := handleRequest_eq_perform env s.world u m
  obtain ⟨q, htask⟩ :=
    Task.sync_of_msgType (task_of_answered htype hanswer fun herror => absurd herror (by simp))
  obtain rfl := taskOf_sync_queue htask
  obtain ⟨-, hsynced, -⟩ := passed_taskOf htask (by simp) (by simp)
  rw [htask, perform] at heq
  rw [heq] at hanswer ⊢
  cases hdir : u.dir with
  | none =>
      simp only [handleSync, User.dirPtr, hdir, attempt] at hanswer
      exact absurd hanswer not_answered_halted
  | some dir =>
      have hempty := hs.emptyViews hhalt c u hc hsynced dir hdir
      obtain ⟨dir', huser, hfresh⟩ := handleSync_fresh hd hdir (hpath dir hdir) hempty hanswer
      obtain ⟨dir'', r, hdir'', hr, hshaped⟩ :=
        handleSync_items hdir hempty (itemized_ofType _) hanswer
      rw [huser] at hdir''
      obtain rfl := Option.some.inj hdir''
      exact ⟨dir', r, by rw [huser], hfresh, hr, hshaped⟩

/-- What a SYNC answered OK finds in a directory whose files were acknowledged: each ITEM is the
sign of an entry, and each entry was acknowledged. -/
theorem sync_acknowledged {env : Env} {s : Server} {c : Nat} {m : Message} {u : User}
    {A : Path → Bytes → Prop} (hs : Reached env s) (hsync : AnswersOk env s c m .sync)
    (hc : s.sessions c = some u) (hA : Vouched env s.world.disk (userDirectory env u) A) :
    ∃ dir r, (handleRequest env s.world u m).user.dir = some dir ∧
      (handleRequest env s.world u m).result = .ok r ∧
      Shaped r MsgType.sync.toByte (dir.content.map entrySign) ∧
      ∀ e ∈ dir.content, Canonical e.1 ∧ A e.1 e.2.digest ∧
        splitSign (entrySign e) = .ok (e.1, e.2.digest) := by
  have hd := userDirectory_ne_nil env u
  obtain ⟨dir, r, hdir, hfresh, hr, hshaped⟩ := synced_view hs hsync hc hd (hs.ownDirs c u hc)
  refine ⟨dir, r, hdir, hr, hshaped, fun e he => ?_⟩
  obtain ⟨l, hl, hne, hentry⟩ := (hfresh.entries e).mp he
  obtain ⟨i, hi, rfl⟩ := fileEntry_eq_some.mp hentry
  -- Each entry is a file below the user's directory, and those are vouched for.
  refine ⟨⟨_, (toPath_below hd hl hne).2, rfl⟩, hA l i hl hi, splitSign_createSign ?_ _⟩
  exact fun hnul => (md5ToString_digits _ _ hnul).2.1 rfl

/-! ### One event -/

/-- The sessions of one user, one after another: a connection is accepted when no other one is
live, and every AUTH that is answered OK is for this user. -/
def OneUser (env : Env) (username : Bytes) (s : Server) : Event → Prop
  | .accept _ _ _ _ => ∀ c, s.sessions c = none
  | .request c m => ∀ u, s.sessions c = some u → EndsAuth env s.world u m → FirstValue m username
  | .shutdown _ => True

/-- No session ends in the middle of a transfer. The memory of a new connection holds a clear
synced flag, a request of a synced session names its file as SYNC does and fits, and a synced
session is shut down only when none of its entries is unsynced. -/
def Orderly (env : Env) (s : Server) : Event → Prop
  | .accept _ _ isSynced _ => isSynced = false
  | .request c m => ∀ u, s.sessions c = some u → u.isSynced = true →
      (∀ path digest, Signed m path digest → Canonical path) ∧ Fits env s.world u m
  | .shutdown c => ∀ u dir, s.sessions c = some u → u.isSynced = true → u.dir = some dir →
      ∀ e ∈ dir.content, e.2.synced = true

/-- The invariant of the user's sessions. `single`: at most one is live. `named`: it is the
user's. `keeps`, `vouched`: what was acknowledged, while a session is synced and while none
is. -/
structure Backed (env : Env) (username : Bytes) (Acked : Path → Bytes → Prop) (s : Server) :
    Prop where
  single : ∀ c c' u u', s.sessions c = some u → s.sessions c' = some u' → c' = c
  named : ∀ c u, s.sessions c = some u → u.dir ≠ none → u.username = username
  keeps : ∀ c u, s.sessions c = some u → u.isSynced = true → ∃ dir, Keeps env s c Acked u dir
  vouched : (∀ c u, s.sessions c = some u → u.isSynced = false) →
    Vouched env s.world.disk (homeOf env username) Acked

/-- The only session of the server is the one on connection `c`. -/
theorem Backed.of_only {env : Env} {username : Bytes} {A : Path → Bytes → Prop} {s : Server}
    {c : Nat} {u : User} (honly : ∀ c' u', s.sessions c' = some u' → c' = c ∧ u' = u)
    (hnamed : u.dir ≠ none → u.username = username)
    (hkeeps : u.isSynced = true → ∃ dir, Keeps env s c A u dir)
    (hvouched : u.isSynced = false → Vouched env s.world.disk (homeOf env username) A)
    (hc : s.sessions c = some u) : Backed env username A s where
  single c1 c2 u1 u2 h1 h2 := (honly c2 u2 h2).1.trans (honly c1 u1 h1).1.symm
  named c' u' h := by
    obtain ⟨rfl, rfl⟩ := honly c' u' h
    exact hnamed
  keeps c' u' h := by
    obtain ⟨rfl, rfl⟩ := honly c' u' h
    exact hkeeps
  vouched h := hvouched (h c u hc)

/-- A request of a session that is not synced leaves the tree alone. -/
theorem unsynced_disk {env : Env} {w : World} {u : User} {m : Message}
    (hsynced : u.isSynced = false) : (handleRequest env w u m).world.disk = w.disk := by
  rw [handleRequest_eq_perform]
  cases htask : taskOf env u m with
  | stop | refuse | keepAlive | authenticate => rfl
  | sync replies => exact (handleSync_user env w u replies).1
  | create | update | erase =>
      obtain ⟨-, hflag, -⟩ := passed_taskOf htask (by simp) (by simp)
      exact absurd (hsynced.symm.trans hflag) (by simp)

/-- More acknowledgements back what was backed. -/
theorem Backed.mono {env : Env} {username : Bytes} {A A' : Path → Bytes → Prop} {s : Server}
    (h : Backed env username A s) (hA : ∀ p x, A p x → A' p x) : Backed env username A' s where
  single := h.single
  named := h.named
  keeps c u hc hsynced := by
    obtain ⟨dir, hkeeps⟩ := h.keeps c u hc hsynced
    exact ⟨dir, hkeeps.mirrored, hkeeps.canonical, fun e he hs => hA _ _ (hkeeps.acked e he hs)⟩
  vouched hidle := (h.vouched hidle).mono hA fun _ _ _ hi => ⟨hi, rfl⟩

/-- A server with a session that is not synced has no synced session. -/
theorem Backed.idle {env : Env} {username : Bytes} {A : Path → Bytes → Prop} {s : Server} {c : Nat}
    {u : User} (h : Backed env username A s) (hc : s.sessions c = some u)
    (hsynced : u.isSynced = false) : ∀ c' u', s.sessions c' = some u' → u'.isSynced = false := by
  intro c' u' hc'
  obtain rfl := h.single c c' u u' hc hc'
  rw [hc] at hc'
  cases hc'
  exact hsynced

/-- After a request of the only session it is the only one still. -/
theorem Backed.served_only {env : Env} {username : Bytes} {A : Path → Bytes → Prop} {s : Server}
    {c : Nat} {u v : User} {m : Message} (h : Backed env username A s)
    (hc : s.sessions c = some u) (hself : (s.serve env c u m).sessions c = some v) :
    ∀ c' u', (s.serve env c u m).sessions c' = some u' → c' = c ∧ u' = v := by
  intro c' u' hc'
  by_cases hcc : c' = c
  · subst hcc
    exact ⟨rfl, Option.some.inj (hc'.symm.trans hself)⟩
  · rw [Server.serve] at hc'
    simp only [Function.update_of_ne hcc] at hc'
    exact absurd (h.single c c' u u' hc hc') hcc

/-- One request of the session when it is synced. -/
theorem Backed.served_synced {env : Env} {username : Bytes} {A A' : Path → Bytes → Prop}
    {s : Server} {c : Nat} {u : User} {m : Message} (h : Backed env username A s)
    (hc : s.sessions c = some u) (hsynced : u.isSynced = true)
    (hcanonical : ∀ path digest, Signed m path digest → Canonical path)
    (hfits : Fits env s.world u m) (hA : ∀ p x, A p x → A' p x)
    (hnew : ∀ p x, Acknowledges env s.world u m p x → A' p x)
    (hhalt : (s.serve env c u m).halt = none) :
    Backed env username A' (s.serve env c u m) := by
  have hplain : PlainRequest m := fun path digest hsigned => (hcanonical path digest hsigned).plain
  obtain ⟨dir, hkeeps⟩ := h.keeps c u hc hsynced
  obtain ⟨hauth, hdir, hview, hmirrors⟩ := And.intro hkeeps.mirrored.auth
    (And.intro hkeeps.mirrored.view (And.intro hkeeps.mirrored.plain hkeeps.mirrored.mirrors))
  obtain ⟨r, hr⟩ := result_of_serve hhalt
  obtain ⟨dir', huser, hview', hsteps⟩ :=
    request_steps hauth hsynced hdir hview hmirrors hplain hfits hr
  have hself : (s.serve env c u m).sessions c = some { u with dir := some dir' } := by
    rw [← huser]
    exact Function.update_self _ _ _
  refine Backed.of_only (u := { u with dir := some dir' }) (h.served_only hc hself)
    (fun _ => h.named c u hc (by simp [hdir])) (fun _ => ?_)
    (fun hnot => absurd (hsynced.symm.trans hnot) (by simp)) hself
  have hentries : ∀ e ∈ dir'.content, e ∈ dir.content ∨ NewEntry env s.world u m e := fun e he =>
    request_entries hauth hsynced hdir hview hplain hr (by rw [huser]) he
  -- An entry was there before, or the request has written it.
  refine ⟨dir', ⟨hself, hauth, hsynced, rfl, hview', hmirrors.steps hsteps⟩, fun e he => ?_,
    fun e he hs => ?_⟩
  · rcases hentries e he with hold | ⟨digest, hsigned, -⟩
    · exact hkeeps.canonical e hold
    · exact hcanonical _ _ hsigned
  · rcases hentries e he with hold | ⟨digest, -, hacked⟩
    · exact hA _ _ (hkeeps.acked e hold hs)
    · exact hnew _ _ (hacked hs)

/-- One request of the session before its SYNC, or its SYNC. -/
theorem Backed.served_unsynced {env : Env} {username : Bytes} {A A' : Path → Bytes → Prop}
    {s : Server} {c : Nat} {u : User} {m : Message} (hs : Reached env s)
    (h : Backed env username A s) (hbefore : s.halt = none) (hc : s.sessions c = some u)
    (hsynced : u.isSynced = false) (huser : EndsAuth env s.world u m → FirstValue m username)
    (hA : ∀ p x, A p x → A' p x) : Backed env username A' (s.serve env c u m) := by
  have hself : (s.serve env c u m).sessions c = some (handleRequest env s.world u m).user :=
    Function.update_self _ _ _
  have hidle := h.idle hc hsynced
  have hdisk : (s.serve env c u m).world.disk = s.world.disk := unsynced_disk hsynced
  refine Backed.of_only (h.served_only hc hself) ?_ ?_ ?_ hself
  · intro hdir
    rcases handleRequest_identity env s.world u m with ⟨-, hname, hpath⟩ | ⟨-, hends⟩
    · rw [hname]
      refine h.named c u hc fun hnone => hdir ?_
      rw [hnone] at hpath
      simpa using hpath
    · exact (hends.identified (huser hends)).2.2.1
  · intro hflag
    rcases (handleRequest_flags env s.world u m).2 hflag with hflag | ⟨htype, -, hok⟩
    · exact absurd (hsynced.symm.trans hflag) (by simp)
    · -- The SYNC of the only session.
      have hsync : AnswersOk env s c m .sync := ⟨hbefore, u, hc, htype, hok⟩
      have hsole : SyncsAlone env s c m :=
        ⟨hsync, fun u1 c' u2 h1 h2 _ => h.single c c' u1 u2 h1 h2⟩
      obtain ⟨u', dir, hmirrored⟩ := hsole.mirrored hs
      rw [step_request m hbefore hc] at hmirrored
      have hu' := Option.some.inj (hself.symm.trans hmirrored.session)
      have hnamed : u.username = username := h.named c u hc fun hnone => by
        rcases handleRequest_identity env s.world u m with ⟨-, -, hpath⟩ | ⟨-, hauth, -⟩
        · rw [hu', hmirrored.view, hnone] at hpath
          exact absurd hpath (by simp)
        · exact absurd (htype.symm.trans hauth) (by decide)
      obtain ⟨dir', r, hdir', -, -, hentries⟩ := sync_acknowledged hs hsync hc
        (userDirectory_eq_homeOf hnamed ▸ h.vouched hidle)
      rw [hu', hmirrored.view] at hdir'
      obtain rfl := Option.some.inj hdir'
      exact ⟨dir, hu' ▸ hmirrored, fun e he => (hentries e he).1,
        fun e he _ => hA _ _ (hentries e he).2.1⟩
  · intro _
    exact (h.vouched hidle).mono hA fun l i _ hi => ⟨hdisk ▸ hi, by rw [hdisk]⟩

/-- The end of the session. -/
theorem Backed.shut {env : Env} {username : Bytes} {A : Path → Bytes → Prop} {s : Server} {c : Nat}
    {u : User} (hs : Reached env s) (h : Backed env username A s) (hc : s.sessions c = some u)
    (horderly : Orderly env s (.shutdown c)) :
    Backed env username A
      { s with
        world := s.world.eraseStream u.id
        sessions := Function.update s.sessions c none } := by
  have hempty : ∀ c', Function.update s.sessions c none c' = none := by
    intro c'
    by_cases hcc : c' = c
    · subst hcc
      exact Function.update_self _ _ _
    · rw [Function.update_of_ne hcc]
      cases hc' : s.sessions c' with
      | none => rfl
      | some u' => exact absurd (h.single c c' u u' hc hc') hcc
  have hnobody : ∀ {c' u'}, Function.update s.sessions c none c' ≠ some u' := fun {c' u'} h' => by
    rw [hempty c'] at h'
    exact absurd h' (by simp)
  refine ⟨fun _ _ _ _ h1 => absurd h1 hnobody, fun _ _ h1 => absurd h1 hnobody,
    fun _ _ h1 => absurd h1 hnobody, fun _ => ?_⟩
  -- The stream hands its last bytes over, to none of the user's files.
  have hspared : Vouched env s.world.disk (homeOf env username) A ∧
      ∀ l i, homeOf env username <+: l → s.world.disk.node l = some (.file i) →
        s.world.openOn u.id ≠ some i := by
    cases hsynced : u.isSynced with
    | true =>
        obtain ⟨dir, hkeeps⟩ := h.keeps c u hc hsynced
        have hnamed := h.named c u hc (by simp [hkeeps.mirrored.view])
        have hvouched := hkeeps.vouched (horderly u dir hc hsynced hkeeps.mirrored.view)
        rwa [userDirectory_eq_homeOf hnamed] at hvouched
    | false =>
        have hidle := h.idle hc hsynced
        refine ⟨h.vouched hidle, fun l i _ _ hopen => ?_⟩
        have hstream : s.world.streams u.id ≠ none := by
          intro hnone
          rw [noStream_openOn hnone] at hopen
          exact absurd hopen (by simp)
        obtain ⟨c', u', hc', -, -, hsynced'⟩ := hs.streamsOwned u.id hstream
        exact absurd ((hidle c' u' hc').symm.trans hsynced') (by simp)
  exact hspared.1.eraseStream hspared.2

/-- One event keeps the invariant. What a request acknowledges is in `A'`. -/
theorem backed_step {env : Env} {username : Bytes} {A A' : Path → Bytes → Prop} {s : Server}
    {e : Event} (hs : Reached env s) (h : s.halt = none → Backed env username A s)
    (huser : OneUser env username s e) (horderly : Orderly env s e)
    (hA : ∀ p x, A p x → A' p x)
    (hnew : ∀ c m u, e = .request c m → s.halt = none → s.sessions c = some u →
      ∀ p x, Acknowledges env s.world u m p x → A' p x) :
    (Server.step env s e).halt = none → Backed env username A' (Server.step env s e) := by
  intro hhalt
  have hbefore := halt_of_step hhalt
  have hbacked := h hbefore
  have hstep := step_ends env s e
  generalize Server.step env s e = s' at hstep hhalt ⊢
  cases hstep with
  | idle => exact hbacked.mono hA
  | accepted c isAuth isSynced ip _ hc =>
      obtain rfl : isSynced = false := horderly
      have hself : Function.update s.sessions c (some (User.fresh isAuth false ip)) c =
          some (User.fresh isAuth false ip) := Function.update_self _ _ _
      refine Backed.of_only (c := c) ?_ (fun hdir => absurd rfl hdir)
        (fun hsynced => absurd hsynced (by simp [User.fresh])) ?_ hself
      -- The new connection is the only one.
      · intro c' u' hc'
        by_cases hcc : c' = c
        · subst hcc
          exact ⟨rfl, Option.some.inj (hc'.symm.trans hself)⟩
        · simp only [Function.update_of_ne hcc, huser c'] at hc'
          exact absurd hc' (by simp)
      · intro _
        refine (hbacked.vouched fun c' u' hc' => ?_).mono hA fun _ _ _ hi => ⟨hi, rfl⟩
        rw [huser c'] at hc'
        exact absurd hc' (by simp)
  | served c m u _ hc =>
      cases hsynced : u.isSynced with
      | true =>
          obtain ⟨hcanonical, hfits⟩ := horderly u hc hsynced
          exact hbacked.served_synced hc hsynced hcanonical hfits hA
            (hnew c m u rfl hbefore hc) hhalt
      | false => exact hbacked.served_unsynced hs hbefore hc hsynced (huser u hc) hA
  | shut c u _ hc => exact (hbacked.shut hs hc horderly).mono hA

/-! ### Runs -/

/-- Among these events, which start in state `s`, the last chunk of a CREATE or an UPDATE of
`path` with this digest was answered OK. -/
def AckedEarlier (env : Env) (s : Server) (es : List Event) (path digest : Bytes) : Prop :=
  ∃ pre c m post u, es = pre ++ .request c m :: post ∧ (run (Server.step env) s pre).halt = none ∧
    (run (Server.step env) s pre).sessions c = some u ∧
    Acknowledges env (run (Server.step env) s pre).world u m path digest

/-- Every ITEM of a SYNC that is answered OK names a path and a digest that were acknowledged
before. -/
def ListsAcknowledged (env : Env) (s : Server) (es : List Event) : Prop :=
  ∀ pre c m post, es = pre ++ .request c m :: post →
    AnswersOk env (run (Server.step env) s pre) c m .sync →
    ∃ u r items, (run (Server.step env) s pre).sessions c = some u ∧
      (handleRequest env (run (Server.step env) s pre).world u m).result = .ok r ∧
      Shaped r MsgType.sync.toByte items ∧
      ∀ sign ∈ items, ∃ path digest, splitSign sign = .ok (path, digest) ∧
        AckedEarlier env s pre path digest

/-- An earlier acknowledgement stays earlier. -/
theorem AckedEarlier.append {env : Env} {s : Server} {es : List Event} {path digest : Bytes}
    (h : AckedEarlier env s es path digest) (fs : List Event) :
    AckedEarlier env s (es ++ fs) path digest := by
  obtain ⟨pre, c, m, post, u, rfl, hacked⟩ := h
  exact ⟨pre, c, m, post ++ fs, u, by simp, hacked⟩

/-- Every orderly run keeps the invariant. Induction on the events, last one first, since what
was acknowledged grows with the run. -/
theorem backed_run {env : Env} {username : Bytes} {disk : Disk} (es : List Event)
    (hempty : ∀ l i, homeOf env username <+: l → disk.node l ≠ some (.file i))
    (huser : Along (Server.step env) (OneUser env username) (Server.start (World.ofDisk disk)) es)
    (horderly : Along (Server.step env) (Orderly env) (Server.start (World.ofDisk disk)) es) :
    (run (Server.step env) (Server.start (World.ofDisk disk)) es).halt = none →
      Backed env username (AckedEarlier env (Server.start (World.ofDisk disk)) es)
        (run (Server.step env) (Server.start (World.ofDisk disk)) es) := by
  induction es using List.reverseRecOn with
  | nil =>
      intro _
      refine ⟨fun _ _ _ _ h => ?_, fun _ _ h => ?_, fun _ _ h => ?_, fun _ l i hl hi => ?_⟩
      · cases h
      · cases h
      · cases h
      · exact absurd hi (hempty l i hl)
  | append_singleton es e ih =>
      obtain ⟨huser, huser', -⟩ := along_append.mp huser
      obtain ⟨horderly, horderly', -⟩ := along_append.mp horderly
      rw [run_append, run_singleton]
      refine backed_step ⟨disk, es, rfl⟩ (ih huser horderly) huser' horderly'
        (fun _ _ h => h.append [e]) ?_
      rintro c m u rfl hhalt hc path digest hacked
      exact ⟨es, c, m, [], u, rfl, hhalt, hc, hacked⟩

/-- In every orderly run of the sessions of a user whose directory was empty, every SYNC that is
answered OK lists acknowledged files only. -/
theorem synced_items_acknowledged {env : Env} {username : Bytes} {disk : Disk} {es : List Event}
    (hempty : ∀ l i, homeOf env username <+: l → disk.node l ≠ some (.file i))
    (huser : Along (Server.step env) (OneUser env username) (Server.start (World.ofDisk disk)) es)
    (horderly : Along (Server.step env) (Orderly env) (Server.start (World.ofDisk disk)) es) :
    ListsAcknowledged env (Server.start (World.ofDisk disk)) es := by
  rintro pre c m post rfl hsync
  have hbacked :=
    backed_run pre hempty (along_append.mp huser).1 (along_append.mp horderly).1 hsync.1
  have hreached : Reached env (run (Server.step env) (Server.start (World.ofDisk disk)) pre) :=
    ⟨disk, pre, rfl⟩
  generalize run (Server.step env) (Server.start (World.ofDisk disk)) pre = s at *
  obtain ⟨-, u, hc, htype, hanswer⟩ := id hsync
  obtain ⟨q, htask⟩ :=
    Task.sync_of_msgType (task_of_answered htype hanswer fun herror => absurd herror (by simp))
  obtain ⟨-, hsynced, -⟩ := passed_taskOf htask (by simp) (by simp)
  -- An answered SYNC has a directory, so its session is the user's.
  have hnamed : u.username = username := hbacked.named c u hc fun hnone => by
    rw [handleRequest_eq_perform, htask, perform, handleSync, User.dirPtr, hnone] at hanswer
    exact absurd hanswer not_answered_halted
  have hidle := hbacked.idle hc hsynced
  obtain ⟨dir, r, -, hr, hshaped, hentries⟩ := sync_acknowledged hreached hsync hc
    (userDirectory_eq_homeOf hnamed ▸ hbacked.vouched hidle)
  refine ⟨u, r, _, hc, hr, hshaped, fun sign hsign => ?_⟩
  obtain ⟨e, he, rfl⟩ := List.mem_map.mp hsign
  obtain ⟨-, hacked, hsplit⟩ := hentries e he
  exact ⟨e.1, e.2.digest, hsplit, hacked⟩

/-- A session of `bobby` that sends one request after its SYNC. -/
def bobbySession (m : Message) : List Event := bobbyLogin ++ [.request 0 m, .shutdown 0]

/-- `bobby` connects again, and his AUTH is answered. -/
def bobbyAgain : List Event := [.accept 1 false false (ascii "127.0.0.1"), .request 1 bobbyAuth]

/-- `bobby`'s disk holds no file at first. -/
theorem bobbyWorld_empty (d : Loc) (l : Loc) (i : Nat) (_ : d <+: l) :
    bobbyWorld.disk.node l ≠ some (.file i) := by
  have hempty : Disk.empty.node l ≠ some (.file i) := by
    intro h
    simp only [Disk.empty] at h
    split at h <;> exact absurd h (by simp)
  rcases Disk.empty.createDirectories_node bobbyPath l with h | ⟨-, h⟩
  · exact fun hi => hempty (h.symm.trans hi)
  · exact fun hi => absurd (h.symm.trans hi) (by simp)

/-- An AUTH of `bobby` is for `bobby`, and no other request ends an AUTH. -/
theorem oneUser_bobbyAuth {digests : List (Bytes × List UInt32)} (s : Server) (c : Nat) :
    OneUser (bobbyAndBobEnv digests) (ascii "bobby") s (.request c bobbyAuth) :=
  fun _ _ _ => ⟨_, rfl, rfl⟩

/-- What is no AUTH logs nobody in. -/
theorem oneUser_of_msgType {env : Env} {username : Bytes} {m : Message} (s : Server) (c : Nat)
    (h : m.msgType ≠ some MsgType.auth.toByte) : OneUser env username s (.request c m) :=
  fun _ _ hends => absurd hends.1 h

/-- A request of a session that is not synced is orderly. -/
theorem orderly_of_unsynced {env : Env} {s : Server} {c : Nat} {m : Message} {u : User}
    (hc : s.sessions c = some u) (hsynced : u.isSynced = false) :
    Orderly env s (.request c m) := by
  intro u' hu' hflag
  rw [hc] at hu'
  cases hu'
  exact absurd (hsynced.symm.trans hflag) (by simp)

/-- The CREATE of `/a` with the content `hi`, in one chunk. -/
def storeA : Message :=
  chunk .create (ascii "/a") (ascii "1D6677F1499CDF9D69169C4083605DE9") (ascii "hi") true

/-- `/a` is spelled as SYNC spells it. -/
theorem canonical_storeA {path digest : Bytes} (h : Signed storeA path digest) :
    Canonical path := by
  have hsame : ascii "/a" = path :=
    (@Signed.unique _ _ (ascii "1D6677F1499CDF9D69169C4083605DE9") _ _
      ⟨_, _, rfl, rfl, by decide +kernel⟩ h).1
  exact ⟨[⟨ascii "a", by decide⟩], by simp, hsame.symm⟩

/-- When the only connection that was accepted is over, the server has none. -/
theorem none_left {env : Env} {w : World} {es : List Event}
    (haccepts : ∀ c isAuth isSynced ip, Event.accept c isAuth isSynced ip ∈ es → c = 0)
    (h : (run (Server.step env) (Server.start w) es).sessions 0 = none) (c : Nat) :
    (run (Server.step env) (Server.start w) es).sessions c = none := by
  cases hc : (run (Server.step env) (Server.start w) es).sessions c with
  | none => rfl
  | some u =>
      obtain ⟨a, b, ip, hmem⟩ := accepted_of_session hc rfl
      obtain rfl := haccepts c a b ip hmem
      exact absurd (h.symm.trans hc) (by simp)

/-- `bobby` alone uses the server. -/
theorem oneUser_bobby {digests : List (Bytes × List UInt32)} {m : Message}
    (hm : m.msgType ≠ some MsgType.auth.toByte)
    (h : (run (Server.step (bobbyAndBobEnv digests)) (Server.start bobbyWorld)
      (bobbySession m)).sessions 0 = none) :
    Along (Server.step (bobbyAndBobEnv digests)) (OneUser (bobbyAndBobEnv digests) (ascii "bobby"))
      (Server.start bobbyWorld)
      (bobbySession m ++ (bobbyAgain ++ [.request 1 (bareMessage .sync)])) :=
  along_append.mpr ⟨⟨fun _ => rfl, oneUser_bobbyAuth _ _, oneUser_of_msgType _ _ (by decide),
    oneUser_of_msgType _ _ hm, trivial, trivial⟩,
    none_left (by simp [bobbySession, bobbyLogin]) h, oneUser_bobbyAuth _ _,
    oneUser_of_msgType _ _ (by decide), trivial⟩

/-- `bobby` stores `/a`, and finds it in his next session. -/
theorem synced_items_acknowledged_bobby :
    ListsAcknowledged (bobbyAndBobEnv [ahi]) (Server.start bobbyWorld)
      (bobbySession storeA ++ (bobbyAgain ++ [.request 1 (bareMessage .sync)])) := by
  refine @synced_items_acknowledged _ (ascii "bobby") _ _ (bobbyWorld_empty _)
    (oneUser_bobby (by decide) (by decide +kernel))
    (along_append.mpr ⟨⟨rfl, orderly_of_unsynced rfl rfl,
      @orderly_of_unsynced _ _ _ _ { bobby [] with isSynced := false } (by decide +kernel) rfl,
      ?_, ?_, trivial⟩, rfl, orderly_of_unsynced rfl rfl,
      @orderly_of_unsynced _ _ _ _ { bobby [] with isSynced := false } (by decide +kernel) rfl,
      trivial⟩)
  · intro u hu _
    have hbobby : u = bobby [] := Option.some.inj (hu.symm.trans (by decide +kernel))
    subst hbobby
    exact ⟨fun _ _ => canonical_storeA, show CreateFits _ _ _ ⟨bobbyPath, []⟩ (ascii "/a") from
      ⟨Or.inl (by decide +kernel), by simp⟩⟩
  · intro u dir hu _ hdir
    have hbobby : u = bobby [(ascii "/a", ⟨true, ascii "1D6677F1499CDF9D69169C4083605DE9"⟩)] :=
      Option.some.inj (hu.symm.trans (by decide +kernel))
    subst hbobby
    obtain rfl := Option.some.inj hdir
    simp

/-- A reply with an ITEM is not the reply without any. -/
theorem Shaped.items_ne_nil {r : Reply} {msgType : UInt8} {items : List Bytes} {m : Message}
    (h : Shaped r msgType items) (hmsgs : r.replies.msgs = [m])
    (hitem : m.raw[1]? = some TlvType.item.toByte) : items ≠ [] := by
  rintro rfl
  obtain ⟨value, parts, -, hparts, hflat⟩ := h.tlvs
  rw [hmsgs] at hparts
  obtain ⟨part, rfl⟩ := List.length_eq_one_iff.mp (by simpa using congrArg List.length hparts.symm)
  have hm : m = encode r.replies.msgType part := by simpa using hparts
  simp only [List.flatten_cons, List.flatten_nil, List.append_nil, itemTlvs, List.map_nil,
    List.nil_append] at hflat
  rw [hm, hflat, encode_raw] at hitem
  rcases h.status_cases with hstatus | hstatus <;>
    · rw [hstatus] at hitem
      exact absurd hitem (by simp [segment]; decide)

/-- The MD5 digest of `/ah`, which is that of a file `/a` with the content `h`. -/
def ah : Bytes × List UInt32 :=
  (ascii "/ah", [0x9A6A6CA3, 0x29E31629, 0xE298080F, 0x4D0ABBCE])

/-- `bobby` sends the first chunk of `/a` and goes. His next session finds the unfinished file
with a digest that nobody has declared. -/
theorem not_synced_items_acknowledged :
    (bobbyAndBobEnv [ah]).NoFaults ∧
      Along (Server.step (bobbyAndBobEnv [ah])) (OneUser (bobbyAndBobEnv [ah]) (ascii "bobby"))
        (Server.start bobbyWorld)
        (bobbySession beginA ++ (bobbyAgain ++ [.request 1 (bareMessage .sync)])) ∧
      ¬ ListsAcknowledged (bobbyAndBobEnv [ah]) (Server.start bobbyWorld)
        (bobbySession beginA ++ (bobbyAgain ++ [.request 1 (bareMessage .sync)])) := by
  refine ⟨Env.noFaults_ofTables _ _ _ _, oneUser_bobby (by decide) (by decide +kernel), fun h => ?_⟩
  obtain ⟨u, r, items, hc, hr, hshaped, hacked⟩ := h (bobbySession beginA ++ bobbyAgain) 1
    (bareMessage .sync) [] (List.append_assoc _ _ _).symm
    ⟨by decide +kernel, { bobby [] with isSynced := false }, by decide +kernel, rfl,
      by decide +kernel⟩
  have hbobby : u = { bobby [] with isSynced := false } :=
    Option.some.inj (hc.symm.trans (by decide +kernel))
  subst hbobby
  -- The reply has an ITEM.
  have hreply : ((handleRequest (bobbyAndBobEnv [ah]) (run (Server.step (bobbyAndBobEnv [ah]))
      (Server.start bobbyWorld) (bobbySession beginA ++ bobbyAgain)).world
      { bobby [] with isSynced := false } (bareMessage .sync)).result.toOption.map fun r =>
        r.replies.msgs.map fun m => m.raw[1]?) = some [some TlvType.item.toByte] := by
    decide +kernel
  rw [hr] at hreply
  obtain ⟨m, hmsgs, hitem⟩ := List.map_eq_singleton_iff.mp (Option.some.inj hreply)
  obtain ⟨sign, hsign⟩ := List.exists_mem_of_ne_nil _ (hshaped.items_ne_nil hmsgs hitem)
  obtain ⟨path, digest, -, pre, c, m', post, u', hsplit, -, -, hacked⟩ := hacked sign hsign
  -- Among the earlier requests only the chunk is of a file, and it is not a last one.
  have hmem : Event.request c m' ∈ bobbySession beginA ++ bobbyAgain := by
    rw [hsplit]
    simp
  have hm' : m' = bobbyAuth ∨ m' = bareMessage .sync ∨ m' = beginA := by
    simp only [bobbySession, bobbyLogin, bobbyAgain, List.mem_append, List.mem_cons,
      Event.request.injEq, List.not_mem_nil, or_false, reduceCtorEq, false_or] at hmem
    rcases hmem with ((⟨-, hm⟩ | ⟨-, hm⟩) | ⟨-, hm⟩) | ⟨-, hm⟩
    · exact Or.inl hm
    · exact Or.inr (Or.inl hm)
    · exact Or.inr (Or.inr hm)
    · exact Or.inl hm
  obtain rfl | rfl | rfl := hm'
  · exact absurd hacked.kind (by decide)
  · exact absurd hacked.kind (by decide)
  · exact absurd hacked.isLast (by decide +kernel)

end RemoteBackup.Proofs
