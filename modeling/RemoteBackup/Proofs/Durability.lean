import RemoteBackup.Core.Lifetime
import RemoteBackup.Proofs.Acknowledged
import RemoteBackup.Proofs.Threads

/-!
# `RemoteBackup.Proofs.Durability`: an acknowledged file stays

Once the last chunk of a file was acknowledged, the file stays as it is: through the requests of
all users that do not name it, through failing calls, and through every end of the process.

* `Kept`: the file, and that no stream is open on it. A call keeps it that neither opens, removes
  or replaces its place nor renames a directory above it (`Kept.exec`).
* `SparesFile`: what this asks of a message. The requests of other users spare the file anyway
  (`spares_of_other`).
* `kept_live`: one happening; `kept_run`: a run.
* `acknowledged_file_stays`: the file, and what a later SYNC says of it.
-/

set_option autoImplicit false

namespace RemoteBackup.Proofs

open Lib Stepwise

variable {env : Env} {username : Bytes} {T S : Loc → Prop} {w : World} {c : Call} {l : Loc}
  {i : Nat} {bytes : Bytes}

/-! ### One call -/

/-- The file at `l` has inode `i` and holds `bytes`, and no stream writes to it. -/
structure Kept (l : Loc) (i : Nat) (bytes : Bytes) (w : World) : Prop where
  node : w.disk.node l = some (.file i)
  content : w.disk.content i = bytes
  noStream : ∀ id, w.openOn id ≠ some i

/-- Places that a request can change without a change to the file at `l`. -/
def Elsewhere (l k : Loc) : Prop := k ≠ l

/-- Directories that a request can rename without moving the file at `l`. -/
def NotAbove (l k : Loc) : Prop := ¬ k <+: l

/-- A call that is only noted keeps the file. -/
theorem Kept.record (h : Kept l i bytes w) (call : FsCall) : Kept l i bytes (w.record call) :=
  ⟨h.node, h.content, h.noStream⟩

/-- Writes of any stream go to other files. -/
theorem Kept.drain (h : Kept l i bytes w) (id : Bytes) (k : Nat) :
    Kept l i bytes (w.drain id k) where
  node := by
    rw [World.drain_node]
    exact h.node
  content := by
    rw [World.drain_content_of_ne w id k (h.noStream id)]
    exact h.content
  noStream := by
    intro id'
    rw [openOn_drain]
    exact h.noStream id'

/-- Buffered bytes reach no file yet. -/
theorem Kept.buffer (h : Kept l i bytes w) (id content : Bytes) :
    Kept l i bytes (w.buffer id content) where
  node := by
    rw [World.buffer_disk]
    exact h.node
  content := by
    rw [World.buffer_disk]
    exact h.content
  noStream := by
    intro id'
    rw [openOn_buffer]
    exact h.noStream id'

/-- A stream that is closed or goes writes to nothing. -/
theorem Kept.drop (h : Kept l i bytes w) (id : Bytes) (x : Option Stream)
    (hx : ∀ s, x = some s → s.inode = none)
    (hfresh : ∀ t j, x = some t → t.inode = some j → j < w.disk.next) :
    Kept l i bytes (w.withStream id x hfresh) := by
  refine ⟨h.node, h.content, fun id' hopen => ?_⟩
  by_cases hid : id' = id
  · rw [World.openOn, World.withStream_streams, hid, Function.update_self] at hopen
    obtain ⟨s, hs, hi⟩ := Option.bind_eq_some_iff.mp hopen
    rw [hx s hs] at hi
    cases hi
  · rw [World.openOn, World.withStream_streams, Function.update_of_ne hid] at hopen
    exact h.noStream id' hopen

/-- What leaves the streams and the bytes alone, and the place of the file. -/
theorem Kept.of_disk {w' : World} (h : Kept l i bytes w)
    (hnode : w'.disk.node l = w.disk.node l) (hcontent : w'.disk.content = w.disk.content)
    (hstreams : w'.streams = w.streams) : Kept l i bytes w' where
  node := hnode.trans h.node
  content := by
    rw [hcontent]
    exact h.content
  noStream := by
    intro id
    rw [openOn_congr hstreams]
    exact h.noStream id

/-- Making directories keeps the file. -/
theorem Kept.createDirectories (h : Kept l i bytes w) (p : Path) :
    Kept l i bytes (w.createDirectories env p).1 := by
  refine h.of_disk ?_ (w.createDirectories_content env p) (w.createDirectories_streams env p)
  rw [h.node]
  exact (w.createDirectories_extends env p).node l _ h.node

/-- A removal elsewhere keeps the file. -/
theorem Kept.remove (h : Kept l i bytes w) {k : Loc} (hk : k ≠ l) :
    Kept l i bytes (w.remove env (toPath k)).1 := by
  refine h.of_disk ?_ (w.remove_content env _) (w.remove_streams env _)
  rcases remove_disk_cases env w (toPath k) with hdisk | hdisk
  · rw [hdisk]
  · rw [hdisk]
    rcases w.disk.remove_cases (toPath k) with hsame | ⟨k', hk', hne, -, hchildren, hremoved⟩
    · rw [hsame]
    · obtain rfl := Disk.eq_of_locate_toPath hk'
      rw [hremoved, Disk.detach_node hne hchildren, Function.update_of_ne hk.symm]

/-- What gives way to the renamed file is not above the file at `l`, because it is empty. -/
theorem Kept.rename (h : Kept l i bytes w) {src dst : Loc} (hsrc : ¬ src <+: l) (hdst : dst ≠ l)
    (hne : dst ≠ []) : Kept l i bytes (w.rename env (toPath src) (toPath dst)).1 := by
  refine h.of_disk ?_ (w.rename_content env _ _) (w.rename_streams env _ _)
  rcases rename_disk_cases env w (toPath src) (toPath dst) with hdisk | hdisk
  · rw [hdisk]
  · rw [hdisk]
    rcases w.disk.rename_cases (toPath src) (toPath dst) with hsame |
      ⟨src', dst', v, hsrc', hdst', -, -, -, hgives, hrenamed⟩
    · rw [hsame]
    · obtain rfl := Disk.eq_of_locate_toPath hsrc'
      obtain rfl := Disk.eq_of_locate_toPath hdst'
      have hchildren := Disk.children_of_replaceable hgives
      have hnotabove : ¬ dst' <+: l := fun habove =>
        Disk.children_ne_nil habove hdst (by rw [h.node]; simp) hchildren
      have hdetached : (w.disk.detach dst').node l = w.disk.node l := by
        rw [Disk.detach_node hne hchildren, Function.update_of_ne hdst.symm]
      rw [hrenamed]
      dsimp only
      unfold Disk.move
      split
      · show Disk.moved (w.disk.detach dst').node src' dst' l = _
        rw [Disk.moved, if_neg hnotabove, if_neg hsrc, hdetached]
      · exact hdetached

/-- The stream that comes is on another file. -/
theorem Kept.getStream (h : Kept l i bytes w) (id : Bytes) {k : Loc} (hk : k ≠ l) :
    Kept l i bytes (w.getStream env id (toPath k)).1 := by
  have hopened := w.openStream_extends env (toPath k)
  have hlt := w.disk.fresh l i h.node
  have hnode : (w.getStream env id (toPath k)).1.disk.node l = some (.file i) := by
    rw [World.getStream_disk]
    exact hopened.node l _ h.node
  refine ⟨hnode, ?_, fun id' hopen => ?_⟩
  · rw [World.getStream_disk, hopened.content i hlt]
    exact h.content
  rcases w.getStream_cases env id (toPath k) with ⟨-, -, hstreams⟩ | ⟨-, -, hstreams⟩
  · rw [openOn_congr hstreams] at hopen
    exact h.noStream id' hopen
  · by_cases hid : id' = id
    · rw [World.openOn, hstreams, hid, Function.update_self] at hopen
      rw [World.getStream_disk] at hnode
      exact hk (openStream_place hopen hnode).symm
    · rw [World.openOn, hstreams, Function.update_of_ne hid] at hopen
      exact h.noStream id' hopen

/-- A call keeps the file that leaves its place alone. -/
theorem Kept.exec (h : Kept l i bytes w) (hc : Within env username (Elsewhere l) (NotAbove l) c) :
    Kept l i bytes (exec env c w).1 := by
  cases c with
  | createDirectories p => exact h.createDirectories p
  | getStream id p =>
      obtain ⟨-, k, ⟨-, hk⟩, rfl⟩ := hc
      exact h.getStream id hk
  | usable id => exact h
  | write id content => exact (h.buffer id content).drain id _
  | flush id => exact h.drain id _
  | close id => exact (h.drain id _).drop id (some ⟨none, []⟩) (by simp) (by rintro t j ⟨⟩ ⟨⟩)
  | eraseStream id => exact (h.drain id _).drop id none (by simp) (by simp)
  | md5Hash p relativePath => exact h.record _
  | remove p =>
      obtain ⟨k, ⟨-, hk⟩, rfl⟩ := hc
      exact h.remove hk
  | rename p q =>
      obtain ⟨⟨src, ⟨-, hsrc⟩, rfl⟩, dst, ⟨hunder, hdst⟩, rfl⟩ := hc
      exact h.rename hsrc hdst hunder.ne_nil
  | isEmpty p => exact h.record _
  | iterate p => exact h.record _
  | isRegularFile p => exact h.record _
  | advance p => exact h.record _

/-! ### One request -/

/-- A request keeps the file, and leaves the session with its user. -/
theorem handleRequest_kept (h : Kept l i bytes w) {u : User} (hu : InPlace env username u)
    {m : Message} (hm : Aims env username (Elsewhere l) (NotAbove l) m)
    (hauth : AuthOnlyAs env username m) :
    Kept l i bytes (handleRequest env w u m).world ∧
      InPlace env username (handleRequest env w u m).user := by
  have hruns := runsTo_handleRequest env w u m
  have hkept := (handleRequest_within hu hm hauth).run
    (fun c w hc (hw : Kept l i bytes w) => ⟨hw.exec hc, hc.answers w⟩) h
  rw [RunsTo] at hruns
  rwa [hruns] at hkept

/-- The place that a plain path names is below the directory. -/
theorem place_under {path : Path} (hp : PlainPath path) :
    ∃ k n, place (homeOf env username) path = k ++ [n] ∧ homeOf env username <+: k := by
  obtain ⟨ns, hns, hpath⟩ := hp
  obtain ⟨ns, n, rfl⟩ := ns.eq_nil_or_concat'.resolve_left hns
  refine ⟨homeOf env username ++ ns, n, ?_, List.prefix_append _ _⟩
  rw [place, append_plain (by simp [homeOf]) hns hpath, denote_toPath, List.append_assoc]

/-- The requests of another user spare the file. -/
theorem spares_of_other {other : Bytes} {m : Message} (hm : PlainItems m)
    (hne : md5HashString env other ≠ md5HashString env username) (hl : homeOf env username <+: l) :
    Aims env other (Elsewhere l) (NotAbove l) m := by
  have happart : ∀ k, homeOf env other <+: k → ¬ k <+: l := fun k hk hkl =>
    hne (congrArg Subtype.val (name_eq_of_below (hk.trans hkl) hl))
  have helse : ∀ k, homeOf env other <+: k → k ≠ l := fun k hk hkl =>
    happart k hk (hkl ▸ List.prefix_refl k)
  have hplace : ∀ path, PlainPath path → homeOf env other <+: place (homeOf env other) path := by
    intro path hp
    obtain ⟨k, n, hk, hbelow⟩ := @place_under env other path hp
    rw [hk]
    exact hbelow.trans (List.prefix_append _ _)
  refine ⟨hm, fun path digest htype hsigned => ?_, fun path digest htype hsigned => ?_,
    fun path digest htype hsigned k hk _ => helse k hk.below⟩
  · exact helse _ (hplace path (hm _ (Or.inl rfl) htype path digest hsigned))
  · have hp := hm _ (Or.inr (Or.inl rfl)) htype path digest hsigned
    obtain ⟨k, n, hk, hbelow⟩ := @place_under env other path hp
    obtain ⟨n', -, hdraft, -⟩ := draft_concat k n
    have hdraftBelow : homeOf env other <+: draft (place (homeOf env other) path) := by
      rw [hk, hdraft]
      exact hbelow.trans (List.prefix_append _ _)
    exact ⟨helse _ (hplace path hp), helse _ hdraftBelow, happart _ hdraftBelow⟩

/-! ### One happening -/

/-- The messages of a happening spare the file at `l`. -/
def SparesFile (env : Env) (who : Nat → Bytes) (l : Loc) : Happening → Prop
  | .event (.request c m) =>
      Aims env (who c) (Elsewhere l) (NotAbove l) m ∧ AuthOnlyAs env (who c) m
  | _ => True

variable {who : Nat → Bytes}

/-- The file is there, and every session is one of its user. -/
structure KeptBy (env : Env) (who : Nat → Bytes) (l : Loc) (i : Nat) (bytes : Bytes) (s : Server) :
    Prop where
  kept : Kept l i bytes s.world
  sessions : ∀ c u, s.sessions c = some u → InPlace env (who c) u

/-- What is written on the way down goes to other files. -/
theorem Kept.drained (h : Kept l i bytes w) (drains : List (Bytes × Nat)) :
    Kept l i bytes (Server.drained w drains) := by
  induction drains generalizing w with
  | nil => exact h
  | cons d drains ih => exact ih (h.drain d.1 d.2)

/-- A restart finds the file. -/
theorem Kept.ofDisk (h : Kept l i bytes w) : Kept l i bytes (World.ofDisk w.disk) :=
  ⟨h.node, h.content, fun id hopen => absurd hopen (by simp [World.openOn, World.ofDisk])⟩

/-- One happening: an event of a server that runs, or a restart. -/
theorem keptBy_live {s : Server} {e : Happening} (h : KeptBy env who l i bytes s)
    (he : SparesFile env who l e) : KeptBy env who l i bytes (Server.live env s e) := by
  cases e with
  | restart drains => exact ⟨(h.kept.drained drains).ofDisk, fun c u hc => absurd hc (by simp
      [Server.live, Server.start])⟩
  | event e =>
      show KeptBy env who l i bytes (Server.step env s e)
      refine ⟨?_, fun c u hc => ?_⟩
      · have hstep := step_ends env s e
        generalize Server.step env s e = s' at hstep
        cases hstep with
        | idle => exact h.kept
        | accepted => exact h.kept
        | served c m u _ hc => exact (handleRequest_kept h.kept (h.sessions c u hc) he.1 he.2).1
        | shut c u => exact (h.kept.drain u.id _).drop u.id none (by simp) (by simp)
      · rcases step_sessions hc with hc | ⟨isAuth, isSynced, ip, -, rfl⟩ | ⟨m, u', rfl, -, hc', rfl⟩
        · exact h.sessions c u hc
        · exact inPlace_fresh isAuth isSynced ip
        · exact (handleRequest_kept h.kept (h.sessions c u' hc') he.1 he.2).2

/-! ### Before the upload -/

/-- The messages of a happening. -/
def Mannered (env : Env) (who : Nat → Bytes) : Happening → Prop
  | .event (.request c m) => PlainItems m ∧ AuthOnlyAs env (who c) m
  | _ => True

/-- A message that logs in only as a user does so in every state. -/
theorem authAs_of_only {s : Server} {c : Nat} {m : Message} (h : AuthOnlyAs env (who c) m) :
    AuthAs env who s (.request c m) := by
  intro u _ hends
  obtain ⟨x, replies, htask⟩ := Task.authenticate_of_msgType
    (task_of_answered hends.1 hends.2 (fun h => absurd h (by simp)))
  obtain rfl := h u x replies htask
  exact firstValue_of_authenticate htask

/-- One happening keeps the server tidy. -/
theorem tidy_live {s : Server} {e : Happening} (h : Tidy env who s) (he : Mannered env who e) :
    Tidy env who (Server.live env s e) := by
  cases e with
  | restart drains => exact tidy_start _
  | event e =>
      cases e with
      | request c m => exact tidy_step h (authAs_of_only he.2) he.1
      | accept c isAuth isSynced ip =>
          exact @tidy_step env who s (.accept c isAuth isSynced ip) h trivial trivial
      | shutdown c => exact @tidy_step env who s (.shutdown c) h trivial trivial

/-- Since the last start the server has run from some tree. -/
theorem reached_live {s : Server} {e : Happening} (h : Reached env s) :
    Reached env (Server.live env s e) := by
  cases e with
  | restart drains => exact ⟨_, [], rfl⟩
  | event e =>
      obtain ⟨disk, es, rfl⟩ := h
      exact ⟨disk, es ++ [e], by rw [run_append]; rfl⟩

/-- What is read from a place is a file there. -/
theorem read_toPath_file {d : Disk} (h : d.read (toPath l) = some bytes) :
    ∃ i, d.node l = some (.file i) ∧ d.content i = bytes := by
  obtain ⟨i, hi, hbytes⟩ := Disk.read_eq_some.mp h
  rw [Disk.status_toPath] at hi
  exact ⟨i, hi, hbytes⟩

/-- The path of an acknowledged upload is plain. -/
theorem Acknowledges.plain {u : User} {m : Message} {path digest : Bytes}
    (h : Acknowledges env w u m path digest) (hm : PlainItems m) : PlainPath path := by
  rcases h.kind with htype | htype
  · exact hm _ (Or.inl rfl) htype path digest h.signed
  · exact hm _ (Or.inr (Or.inl rfl)) htype path digest h.signed

/-- What an acknowledged last chunk leaves is kept from then on. The user has no stream, and those
of the others are elsewhere. -/
theorem kept_of_acknowledged {s : Server} (h : Tidy env who s) (hhalt : s.halt = none) {n : Nat}
    {u : User} (hn : s.sessions n = some u) {m : Message} {path digest : Bytes}
    (hack : Acknowledges env s.world u m path digest)
    (hfile : NamesNoDirectory s.world u m path) (hm : PlainItems m) :
    ∃ i bytes, KeptBy env who (place (homeOf env (who n)) path) i bytes
        (Server.step env s (.request n m)) ∧
      md5HashString env (path ++ bytes) = digest := by
  have hnoAuth : m.msgType ≠ some MsgType.auth.toByte := by
    rcases hack.kind with htype | htype
    · rw [htype]
      decide
    · rw [htype]
      decide
  have htidy : Tidy env who (Server.step env s (.request n m)) :=
    tidy_step h (authAs_of_only (authOnlyAs_of_msgType hnoAuth)) hm
  obtain ⟨⟨dir, bytes, hdir, hread, hdigest⟩, -, hnone⟩ :=
    stored_of_acknowledged hack.kind hack.signed hack.isLast hack.answered hfile
  have hsession := (handleRequest_inPlace (h.sessions n u hn)
    fun hends => absurd hends.1 hnoAuth).sessionOf hdir
  obtain ⟨l, k, hpath, hl, hplace⟩ := hsession.place (hack.plain hm)
  rw [hpath] at hread
  obtain ⟨i, hi, hbytes⟩ := read_toPath_file hread
  rw [step_request m hhalt hn] at htidy ⊢
  rw [hplace]
  refine ⟨i, bytes, ⟨⟨hi, hbytes, fun id hopen => ?_⟩, htidy.sessions⟩, hdigest⟩
  obtain ⟨m', rfl, hbelow⟩ := htidy.homed id i _ hopen hi
  -- The stream would be the user's own.
  have hown := name_eq_of_below hbelow (hl.trans (List.prefix_append l [k]))
  rw [hsession.id] at hnone
  have hnone' : (s.serve env n u m).world.streams m'.1 = none := by
    rw [hown]
    exact hnone
  rw [World.openOn, hnone'] at hopen
  cases hopen

/-! ### The file and its listing -/

/-- A SYNC that is answered OK lists the file, when its path is spelled as SYNC spells it. -/
theorem kept_listed {s : Server} (h : KeptBy env who l i bytes s) (hs : Reached env s) {n : Nat}
    {m : Message} (hsync : AnswersOk env s n m .sync) {path : Path} (hp : Canonical path)
    (hl : l = place (homeOf env (who n)) path) :
    ∃ u r items, s.sessions n = some u ∧ (handleRequest env s.world u m).result = .ok r ∧
      Shaped r MsgType.sync.toByte items ∧
      createSign path (md5HashString env (path ++ bytes)) ∈ items := by
  have hsync' := hsync
  obtain ⟨-, u, hn, -⟩ := hsync'
  obtain ⟨ns, hns, rfl⟩ := hp
  have hd : homeOf env (who n) ≠ [] := by simp [homeOf]
  obtain ⟨dir, r, -, hfresh, hr, hshaped⟩ := synced_view hs hsync hn hd fun dir hdir =>
    ((h.sessions n u hn).sessionOf hdir).path
  have hplace : l = homeOf env (who n) ++ ns := by
    rw [hl, place, append_plain hd hns (Or.inl rfl), denote_toPath]
  refine ⟨u, r, _, hn, hr, hshaped, List.mem_map.mpr
    ⟨(toPath ns, ⟨true, md5HashString env (toPath ns ++ bytes)⟩), ?_, rfl⟩⟩
  refine (hfresh.entries _).mpr ⟨l, ?_, ?_, fileEntry_eq_some.mpr ⟨i, h.kept.node, ?_⟩⟩
  · rw [hplace]
    exact List.prefix_append _ _
  · rw [hplace]
    simpa using hns
  · rw [h.kept.content, hplace, List.drop_left]
    rfl

/-- Once the last chunk of a file was acknowledged, and it was no directory, the file stays there
with the digest that was sent: through every run of the requests of all users, of failing calls and
of restarts, in which all messages are mannered and those of its own user spare it. A SYNC of this
user that is answered OK lists it. -/
theorem acknowledged_file_stays {disk : Disk} {before after : List Happening} {s : Server}
    (hs : s = run (Server.live env) (Server.start (World.ofDisk disk)) before)
    (hhalt : s.halt = none) {n : Nat} {u : User} (hn : s.sessions n = some u) {m : Message}
    {path digest : Bytes} (hack : Acknowledges env s.world u m path digest)
    (hfile : NamesNoDirectory s.world u m path)
    (hmessages : ∀ e ∈ before ++ .event (.request n m) :: after, Mannered env who e)
    (hothers : ∀ k, who k ≠ who n → md5HashString env (who k) ≠ md5HashString env (who n))
    (hspares : ∀ k m', .event (.request k m') ∈ after → who k = who n →
      Aims env (who n) (Elsewhere (place (homeOf env (who n)) path))
        (NotAbove (place (homeOf env (who n)) path)) m')
    {t : Server} (ht : t = run (Server.live env) s (.event (.request n m) :: after)) :
    (∃ bytes, t.world.disk.read (toPath (place (homeOf env (who n)) path)) = some bytes ∧
      md5HashString env (path ++ bytes) = digest) ∧
    ∀ k m', who k = who n → Canonical path → AnswersOk env t k m' .sync →
      ∃ u' r items, t.sessions k = some u' ∧ (handleRequest env t.world u' m').result = .ok r ∧
        Shaped r MsgType.sync.toByte items ∧ createSign path digest ∈ items := by
  have hbefore : Tidy env who s ∧ Reached env s := by
    rw [hs]
    exact (invariant (I := fun s => Tidy env who s ∧ Reached env s)
      ⟨tidy_start disk, disk, [], rfl⟩ (fun _ _ h he => ⟨tidy_live h.1 he, reached_live h.2⟩)
      (along_of_mem (fun e he => hmessages e (List.mem_append_left _ he)) _)).1
  obtain ⟨hm, -⟩ := hmessages (.event (.request n m)) (by simp)
  obtain ⟨i, bytes, hkept, hdigest⟩ := kept_of_acknowledged hbefore.1 hhalt hn hack hfile hm
  have hspared : ∀ e ∈ after, SparesFile env who (place (homeOf env (who n)) path) e := by
    intro e he
    have hmannered := hmessages e (by simp [he])
    cases e with
    | restart drains => trivial
    | event e =>
        cases e with
        | request k m' =>
            refine ⟨?_, hmannered.2⟩
            by_cases hk : who k = who n
            · rw [hk]
              exact hspares k m' he hk
            · obtain ⟨l, name, hplace, hbelow⟩ := @place_under env (who n) path (hack.plain hm)
              refine spares_of_other hmannered.1 (hothers k hk) ?_
              rw [hplace]
              exact hbelow.trans (List.prefix_append _ _)
        | accept => trivial
        | shutdown => trivial
  have hrun : t = run (Server.live env) (Server.step env s (.request n m)) after := ht
  have hend : KeptBy env who (place (homeOf env (who n)) path) i bytes t := by
    rw [hrun]
    exact (invariant hkept (fun _ _ h he => keptBy_live h he) (along_of_mem hspared _)).1
  have hreached : Reached env t := by
    rw [ht]
    exact (invariant_always hbefore.2 (fun _ _ h => reached_live h) _).1
  refine ⟨⟨bytes, ?_, hdigest⟩, fun k m' hk hp hsync => ?_⟩
  · rw [Disk.read_toPath hend.kept.node, hend.kept.content]
  · rw [← hdigest]
    exact kept_listed hend hreached hsync hp (by rw [hk])

/-- The server goes down after the upload of `/a`, and `bobby` comes back. -/
def bobbyRestarts : List Happening :=
  [.restart [], .event (.accept 0 false false (ascii "127.0.0.1")), .event (.request 0 bobbyAuth)]

/-- The server when `bobby` has come back. -/
def bobbyIsBack : Server :=
  run (Server.live (bobbyAndBobEnv [ahi]))
    (run (Server.live (bobbyAndBobEnv [ahi])) (Server.start bobbyWorld) (bobbyLogin.map .event))
    (.event (.request 0 storeA) :: bobbyRestarts)

/-- `bobby` finds his file. -/
theorem acknowledged_file_stays_bobby :
    (∃ bytes, bobbyIsBack.world.disk.read (toPath (place (homeOf (bobbyAndBobEnv [ahi])
        (ascii "bobby")) (ascii "/a"))) = some bytes ∧
      md5HashString (bobbyAndBobEnv [ahi]) (ascii "/a" ++ bytes) =
        ascii "1D6677F1499CDF9D69169C4083605DE9") ∧
    ∃ u r items, bobbyIsBack.sessions 0 = some u ∧
      (handleRequest (bobbyAndBobEnv [ahi]) bobbyIsBack.world u (bareMessage .sync)).result =
        .ok r ∧
      Shaped r MsgType.sync.toByte items ∧
      createSign (ascii "/a") (ascii "1D6677F1499CDF9D69169C4083605DE9") ∈ items := by
  have hsigned : Signed storeA (ascii "/a") (ascii "1D6677F1499CDF9D69169C4083605DE9") :=
    ⟨_, _, rfl, rfl, by decide +kernel⟩
  have hauth : AuthOnlyAs (bobbyAndBobEnv [ahi]) (ascii "bobby") bobbyAuth :=
    authOnlyAs_of_firstValue ⟨_, rfl, rfl⟩
  have hlogin : PlainItems bobbyAuth := plainItems_of_msgType rfl (Or.inl rfl)
  obtain ⟨hfile, hsync⟩ := @acknowledged_file_stays (bobbyAndBobEnv [ahi]) (fun _ => ascii "bobby")
    bobbyWorld.disk (bobbyLogin.map .event) bobbyRestarts _ rfl (by decide +kernel) 0 (bobby [])
    (by decide +kernel) storeA _ _
    ⟨Or.inl rfl, hsigned, by decide +kernel, by decide +kernel⟩
    ((namesNoDirectory_create rfl rfl).mpr (by decide +kernel))
    (by
      intro e he
      simp only [bobbyLogin, bobbyRestarts, List.map_cons, List.map_nil, List.cons_append,
        List.nil_append, List.mem_cons, List.not_mem_nil, or_false] at he
      rcases he with rfl | rfl | rfl | rfl | rfl | rfl | rfl
      · trivial
      · exact ⟨hlogin, hauth⟩
      · exact ⟨plainItems_of_msgType rfl (Or.inr rfl), authOnlyAs_of_msgType (by decide)⟩
      · exact ⟨plainItems_a hsigned, authOnlyAs_of_msgType (by decide)⟩
      · trivial
      · trivial
      · exact ⟨hlogin, hauth⟩)
    (fun _ hne => absurd rfl hne)
    (by
      intro k m' hm' _
      obtain ⟨-, rfl⟩ : k = 0 ∧ m' = bobbyAuth := by simpa [bobbyRestarts] using hm'
      exact ⟨hlogin, fun _ _ htype => absurd htype (by decide),
        fun _ _ htype => absurd htype (by decide), fun _ _ htype => absurd htype (by decide)⟩)
    bobbyIsBack rfl
  exact ⟨hfile, hsync 0 _ rfl (canonical_storeA hsigned) ⟨by decide +kernel, _, rfl, rfl,
    by decide +kernel⟩⟩

end RemoteBackup.Proofs
