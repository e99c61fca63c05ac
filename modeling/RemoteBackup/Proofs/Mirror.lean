import RemoteBackup.Lib.Catalog
import RemoteBackup.Proofs.Confinement

/-!
# `RemoteBackup.Proofs.Mirror`: the view of a session and the files on the disk

`catalogOf` reads a world and a session's view as a catalog: the entries of the view, the
files below the user's directory, and the file that the user's stream writes to. A draft is
the temporary file of an UPDATE.

* `createTransfer_steps`, `updateTransfer_steps`, `eraseEntry_steps`: what a handler does is a
  run of steps of the catalog, when the user's stream is free or open on the file that the
  request names, no other key names that file, and no key names a temporary file.
-/

set_option autoImplicit false

namespace RemoteBackup.Proofs

open Lib Relation

/-! ### Places and drafts -/

/-- The place of a key below the user's directory. -/
def place (d : Loc) (p : Path) : Loc := denote (append (toPath d) p)

/-- The place of the temporary file for the file at `l`. -/
def draft (l : Loc) : Loc := denote (tempPath (toPath l))

/-- The temporary path has the same parent and a name of its own. -/
theorem tempPath_toPath (l : Loc) (n : Name) :
    ∃ n' : Name, n'.1 = n.1 ++ ascii ".temp" ∧ tempPath (toPath (l ++ [n])) = toPath (l ++ [n']) :=
  ⟨n.extend (ascii ".temp") (by decide), rfl, toPath_concat_append l n _ _⟩

/-- The draft of a location stands beside it, under the name with `.temp` behind it. -/
theorem draft_concat (l : Loc) (n : Name) :
    ∃ n' : Name, n'.1 = n.1 ++ ascii ".temp" ∧ draft (l ++ [n]) = l ++ [n'] ∧
      tempPath (toPath (l ++ [n])) = toPath (draft (l ++ [n])) := by
  obtain ⟨n', hn', htemp⟩ := tempPath_toPath l n
  refine ⟨n', hn', ?_, ?_⟩
  · rw [draft, htemp, denote_toPath]
  · rw [draft, htemp, denote_toPath]

/-- No two locations share a draft. -/
theorem draft_injective {l k : Loc} (hl : l ≠ []) (hk : k ≠ []) (h : draft l = draft k) :
    l = k := by
  obtain ⟨l, n, rfl⟩ := l.eq_nil_or_concat'.resolve_left hl
  obtain ⟨k, m, rfl⟩ := k.eq_nil_or_concat'.resolve_left hk
  obtain ⟨n', hn', hl', -⟩ := draft_concat l n
  obtain ⟨m', hm', hk', -⟩ := draft_concat k m
  rw [hl', hk'] at h
  obtain ⟨rfl, hnm⟩ := List.append_inj' h rfl
  have hval : n.1 ++ ascii ".temp" = m.1 ++ ascii ".temp" := by
    rw [← hn', ← hm', (List.cons.inj hnm).1]
  have heq : n = m := Subtype.ext (List.append_cancel_right hval)
  rw [heq]

/-- How the handlers name the file of a key, and its temporary file. -/
structure Placed (d : Loc) (p : Path) : Prop where
  path : append (toPath d) p = toPath (place d p)
  temp : tempPath (toPath (place d p)) = toPath (draft (place d p))
  below : d <+: place d p
  ne_nil : place d p ≠ []
  draft_below : d <+: draft (place d p)
  draft_ne : draft (place d p) ≠ place d p

/-- A plain path has a place below the directory, and so has its draft. -/
theorem plain_placed {d : Loc} (hd : d ≠ []) {p : Path} (hp : PlainPath p) : Placed d p := by
  obtain ⟨ns, hns, hp⟩ := hp
  have happend := append_plain hd hns hp
  have hplace : place d p = d ++ ns := by rw [place, happend, denote_toPath]
  obtain ⟨ns, n, rfl⟩ := ns.eq_nil_or_concat'.resolve_left hns
  obtain ⟨n', hn', hdraft, htemp⟩ := draft_concat (d ++ ns) n
  rw [List.append_assoc] at hdraft htemp
  -- The suffix makes the name longer.
  have hne : n' ≠ n := by
    intro h
    have hlen := congrArg List.length (h ▸ hn')
    rw [List.length_append] at hlen
    exact absurd hlen (by simp [ascii])
  constructor
  case path => rw [hplace, happend]
  case temp => rw [hplace, htemp]
  case below => exact hplace ▸ List.prefix_append _ _
  case ne_nil => simp [hplace]
  case draft_below =>
    rw [hplace, hdraft]
    exact ⟨ns ++ [n'], by simp⟩
  case draft_ne =>
    rw [hplace, hdraft, ← List.append_assoc]
    exact fun h => hne (List.cons.inj (List.append_cancel_left h)).1

/-! ### The catalog -/

/-- The digest that an entry for `p` declares when the file holds `bytes`. -/
def fileDigest (env : Env) (p bytes : Bytes) : Bytes := md5HashString env (p ++ bytes)

/-- The catalog of a session: its view, the files below its directory `d`, and the file that
the stream of user `id` writes to. -/
def catalogOf (w : World) (id : Bytes) (d : Loc) (dir : Dir) :
    Catalog Path Loc Nat Bytes Bytes where
  listed p s x := (p, ⟨s, x⟩) ∈ dir.content
  stands l i := d <+: l ∧ w.disk.node l = some (.file i)
  bytes := w.disk.content
  writing := w.openOn id

/-! ### Worlds with the same files -/

/-- The files stay where they are, and only the file that user `id` writes to changes. -/
structure Frame (id : Bytes) (w w' : World) : Prop where
  files : ∀ l i, w'.disk.node l = some (.file i) ↔ w.disk.node l = some (.file i)
  bytes : ∀ i, w.openOn id ≠ some i → w'.disk.content i = w.disk.content i
  openOn : w'.openOn id = w.openOn id

/-- Nothing has moved. -/
theorem Frame.refl (id : Bytes) (w : World) : Frame id w w :=
  ⟨fun _ _ => Iff.rfl, fun _ _ => rfl, rfl⟩

/-- Two steps that move nothing of the user's move nothing together. -/
theorem Frame.trans {id : Bytes} {w w' w'' : World} (h : Frame id w w') (h' : Frame id w' w'') :
    Frame id w w'' where
  files l i := (h'.files l i).trans (h.files l i)
  bytes i hi := (h'.bytes i (by rwa [h.openOn])).trans (h.bytes i hi)
  openOn := h'.openOn.trans h.openOn

/-- The file `i` is put at `l`, if it does not stand there, and nothing else changes but its
bytes. -/
structure PutsFile (w w' : World) (l : Loc) (i : Nat) : Prop where
  files : ∀ l' j, w'.disk.node l' = some (.file j) ↔
    w.disk.node l' = some (.file j) ∨ (l' = l ∧ j = i)
  bytes : ∀ j, j ≠ i → w'.disk.content j = w.disk.content j
  file : ∀ j, w.disk.node l = some (.file j) → j = i
  place : ∀ l', w.disk.node l' = some (.file i) → l' = l

/-- What a stream is open on is read off the stream table. -/
theorem openOn_congr {w w' : World} {id : Bytes} (h : w'.streams = w.streams) :
    w'.openOn id = w.openOn id := by
  rw [World.openOn, h, World.openOn]

/-- Making the parent directories moves nothing that was there. -/
theorem created_frame (env : Env) (w : World) (dir : Dir) (p : Path) (id : Bytes) :
    Frame id w (created env w dir p) where
  files := by
    intro l i
    rcases w.createDirectories_node env (parentPath (append dir.path p)) l with h | ⟨h, h'⟩
    · rw [created, h]
    · rw [created, h, h']
      simp
  bytes i _ := congrFun (w.createDirectories_content env _) i
  openOn := openOn_congr (w.createDirectories_streams env _)

/-- A write moves no entry of the tree and no stream. -/
theorem written_frame (env : Env) (w : World) (id content : Bytes) (flushed : Bool) :
    Frame id w (written env w id content flushed) where
  files l i := by rw [written_node]
  bytes := by
    intro i hi
    unfold written
    split
    · rw [World.flush_content_of_ne _ _ (by rwa [World.write_openOn]),
        World.write_content_of_ne _ _ _ _ hi]
    · exact World.write_content_of_ne _ _ _ _ hi
  openOn := by
    unfold written
    split
    · rw [World.flush_openOn, World.write_openOn]
    · rw [World.write_openOn]

/-- A failed open, or one of a file that is there while the user has a stream. -/
theorem opened_frame {env : Env} {w : World} {id : Bytes} {l : Loc}
    (h : (w.openStream env (toPath l)).2 = none ∨
      w.streams id ≠ none ∧ ∃ i, w.disk.node l = some (.file i)) :
    Frame id w (opened env w id (toPath l)) := by
  have hdisk : (opened env w id (toPath l)).disk = w.disk := by
    rw [opened, World.getStream_disk]
    rcases w.openStream_cases env (toPath l) with ⟨hdisk, -⟩ | ⟨k, i, -, -, hdisk, -⟩ |
      ⟨k, hk, hfree, hdisk, hnext⟩
    · exact hdisk
    · exact hdisk
    · rcases h with h | ⟨-, i, hi⟩
      · rw [hnext] at h
        exact absurd h (by simp)
      · rw [← Disk.eq_of_locate_toPath hk, hfree.2.1] at hi
        exact absurd hi (by simp)
  refine ⟨fun k i => by rw [hdisk], fun i _ => by rw [hdisk], ?_⟩
  rcases w.getStream_cases env id (toPath l) with ⟨-, -, hstreams⟩ | ⟨hnone, -, hstreams⟩
  · exact openOn_congr hstreams
  · -- The new stream has no file, so there is none to write to, as before.
    rcases h with h | ⟨hsome, -⟩
    · rw [World.openOn, opened, hstreams, Function.update_self, h, World.openOn, hnone]
      rfl
    · exact absurd hnone hsome

/-- A file that is there stays in its place. -/
theorem PutsFile.stays {w w' : World} {l : Loc} {i : Nat} (h : w.disk.node l = some (.file i))
    (hdisk : w'.disk = w.disk) : PutsFile w w' l i where
  files := by
    intro l' j
    rw [hdisk]
    refine ⟨Or.inl, ?_⟩
    rintro (h' | ⟨rfl, rfl⟩)
    · exact h'
    · exact h
  bytes _ _ := by rw [hdisk]
  file := by
    intro j hj
    rw [h] at hj
    cases hj
    rfl
  place l' hl' := w.disk.no_links l' l i hl' h

/-- A new file stands in its place only. -/
theorem PutsFile.added {w w' : World} {l : Loc} (hfree : w.disk.Free l)
    (hdisk : w'.disk = w.disk.addFile l) : PutsFile w w' l w.disk.next where
  files := by
    intro l' j
    rw [hdisk, Disk.addFile_node hfree]
    by_cases hl' : l' = l
    · subst hl'
      rw [Function.update_self, hfree.2.1]
      simp [eq_comm]
    · rw [Function.update_of_ne hl']
      simp [hl']
  bytes := by
    intro j hj
    rw [hdisk, Disk.addFile_content hfree, Function.update_of_ne hj]
  file := by
    intro j hj
    rw [hfree.2.1] at hj
    exact absurd hj (by simp)
  place l' hl' := absurd (w.disk.fresh l' _ hl') (Nat.lt_irrefl _)

/-- A successful open without a stream before puts the file in its place, or finds it there. -/
theorem opened_puts {env : Env} {w : World} {id : Bytes} {l : Loc} {i : Nat}
    (hnone : w.streams id = none) (h : (w.openStream env (toPath l)).2 = some i) :
    PutsFile w (opened env w id (toPath l)) l i ∧
      (opened env w id (toPath l)).openOn id = some i := by
  have hopen : (opened env w id (toPath l)).openOn id = some i := by
    rcases w.getStream_cases env id (toPath l) with ⟨hsome, -, -⟩ | ⟨-, -, hstreams⟩
    · exact absurd hnone hsome
    · rw [World.openOn, opened, hstreams, Function.update_self, h]
      rfl
  refine ⟨?_, hopen⟩
  have hdisk : (opened env w id (toPath l)).disk = (w.openStream env (toPath l)).1.disk := by
    rw [opened, World.getStream_disk]
  -- The open finds a file, or it makes one.
  rcases w.openStream_cases env (toPath l) with ⟨-, hbad⟩ | ⟨k, j, hk, hj, hsame, hi⟩ |
    ⟨k, hk, hfree, hadd, hnext⟩
  · rw [h] at hbad
    exact absurd hbad (by simp)
  · obtain rfl := Disk.eq_of_locate_toPath hk
    rw [h] at hi
    obtain rfl := Option.some.inj hi
    exact .stays hj (hdisk.trans hsame)
  · obtain rfl := Disk.eq_of_locate_toPath hk
    rw [h] at hnext
    obtain rfl := Option.some.inj hnext
    exact .added hfree (hdisk.trans hadd)

/-! ### A stream that fits -/

/-- The user has no stream, or the target path names a file, and the stream is open on it or
could not be opened. -/
def StreamFits (w : World) (id : Bytes) (target : Path) : Prop :=
  w.streams id = none ∨
    ∃ i, w.disk.status target = some (.file i) ∧ (w.openOn id = some i ∨ w.openOn id = none)

/-- What happens before the open and changes no file. -/
theorem PutsFile.after {id : Bytes} {w w0 w1 : World} {l : Loc} {i : Nat} (h0 : Frame id w w0)
    (hbefore : w.openOn id = none ∨ w.openOn id = some i) (h : PutsFile w0 w1 l i) :
    PutsFile w w1 l i where
  files l' j := by rw [h.files, h0.files]
  bytes := by
    intro j hj
    rw [h.bytes j hj]
    refine h0.bytes j ?_
    rcases hbefore with hnone | hsome
    · simp [hnone]
    · simpa [hsome] using Ne.symm hj
  file j hj := h.file j ((h0.files l j).mpr hj)
  place l' hl' := h.place l' ((h0.files l' i).mpr hl')

/-- What is written to the file afterwards. -/
theorem PutsFile.grow {id : Bytes} {w w1 w2 : World} {l : Loc} {i : Nat} (h : PutsFile w w1 l i)
    (hopen : w1.openOn id = some i) (h2 : Frame id w1 w2) : PutsFile w w2 l i where
  files l' j := by rw [h2.files, h.files]
  bytes := by
    intro j hj
    rw [h2.bytes j (by simpa [hopen] using Ne.symm hj), h.bytes j hj]
  file := h.file
  place := h.place

/-- The file that was put stays when the stream on it is closed. -/
theorem PutsFile.close {id : Bytes} {w w1 : World} {l : Loc} {i : Nat} (h : PutsFile w w1 l i)
    (hopen : w1.openOn id = some i) : PutsFile w (closed w1 id) l i where
  files l' j := by rw [closed, World.closed_node, h.files]
  bytes := by
    intro j hj
    rw [closed, World.closed_disk,
      World.flush_content_of_ne _ _ (by simpa [hopen] using Ne.symm hj), h.bytes j hj]
  file := h.file
  place := h.place

/-- No stream of the user is open afterwards. -/
theorem closed_openOn (w : World) (id : Bytes) : (closed w id).openOn id = none := by
  rw [World.openOn, closed_streams_self]
  rfl

/-- With a stream that was there before, the open of a stream that fits leaves the files
alone. -/
theorem kept_opened {env : Env} {w : World} {id : Bytes} {l : Loc}
    (hfits : StreamFits w id (toPath l)) (hsome : w.streams id ≠ none) :
    Frame id w (opened env w id (toPath l)) := by
  rcases hfits with hnone | ⟨i, hstatus, -⟩
  · exact absurd hnone hsome
  · rw [Disk.status_toPath] at hstatus
    exact opened_frame (Or.inr ⟨hsome, i, hstatus⟩)

/-- With a stream that fits and was there before, a chunk only writes. -/
theorem kept_frame {env : Env} {w : World} {id : Bytes} {l : Loc} (content : Bytes)
    (flushed : Bool) (hfits : StreamFits w id (toPath l)) (hsome : w.streams id ≠ none) :
    Frame id w (written env (opened env w id (toPath l)) id content flushed) :=
  (kept_opened hfits hsome).trans (written_frame env _ id content flushed)

/-- A new stream can be used when its open has succeeded. -/
theorem opened_of_usable {env : Env} {w : World} {id : Bytes} {target : Path}
    (hnone : w.streams id = none) (husable : (opened env w id target).usable id = true) :
    ∃ i, (w.openStream env target).2 = some i := by
  rw [World.usable_eq, Option.isSome_iff_exists] at husable
  obtain ⟨i, hi⟩ := husable
  rcases w.getStream_cases env id target with ⟨hsome, -, -⟩ | ⟨-, -, hstreams⟩
  · exact absurd hnone hsome
  · rw [World.openOn, opened, hstreams, Function.update_self] at hi
    exact ⟨i, hi⟩

/-- A stream that fits, and can be used, is on the file of the target when the chunk is
written. -/
theorem transfer_puts {env : Env} {w : World} {id : Bytes} {l : Loc} (content : Bytes)
    (flushed : Bool) (hfits : StreamFits w id (toPath l))
    (husable : (opened env w id (toPath l)).usable id = true) :
    ∃ i, PutsFile w (written env (opened env w id (toPath l)) id content flushed) l i ∧
      (written env (opened env w id (toPath l)) id content flushed).openOn id = some i ∧
      (w.streams id = none ∨ w.openOn id = some i) := by
  have hwritten := written_frame env (opened env w id (toPath l)) id content flushed
  by_cases hnone : w.streams id = none
  · -- The stream is new, and its open has put the file in place.
    obtain ⟨i, hi⟩ := opened_of_usable hnone husable
    obtain ⟨hputs, hopen⟩ := opened_puts hnone hi
    exact ⟨i, hputs.grow hopen hwritten, hwritten.openOn.trans hopen, Or.inl hnone⟩
  · -- The stream was there. It can be used, so it is open on the file at `l`.
    have hframe := @kept_frame env _ _ _ content flushed hfits hnone
    obtain ⟨i, hstatus, hopen⟩ := hfits.resolve_left hnone
    have hi : w.openOn id = some i := by
      refine hopen.resolve_right fun hdead => ?_
      rw [World.usable_eq, (kept_opened hfits hnone).openOn, hdead] at husable
      exact absurd husable (by simp)
    rw [Disk.status_toPath] at hstatus
    exact ⟨i, (PutsFile.stays hstatus rfl).grow hi hframe, hframe.openOn.trans hi, Or.inr hi⟩

/-- A stream that fits and cannot be used leaves the files alone. -/
theorem noStream_frame {env : Env} {w : World} {id : Bytes} {l : Loc}
    (hfits : StreamFits w id (toPath l))
    (husable : (opened env w id (toPath l)).usable id = false) :
    Frame id w (opened env w id (toPath l)) := by
  by_cases hnone : w.streams id = none
  · -- The stream is new, so its open has failed.
    refine opened_frame (Or.inl ?_)
    rcases w.getStream_cases env id (toPath l) with ⟨hsome, -, -⟩ | ⟨-, -, hstreams⟩
    · exact absurd hnone hsome
    · rw [World.usable_eq, World.openOn, opened, hstreams, Function.update_self] at husable
      simpa using husable
  · exact kept_opened hfits hnone

/-! ### The view after a chunk -/

/-- A view of the directory `d` whose keys are plain. -/
structure PlainView (d : Loc) (dir : Dir) : Prop where
  path : dir.path = toPath d
  plain : ∀ e ∈ dir.content, PlainPath e.1

/-- In a plain view, keys that look alike are equal. -/
theorem PlainView.keys {d : Loc} {dir : Dir} (h : PlainView d dir) {p : Path} (hp : PlainPath p)
    (hash : Bytes → UInt64) : ∀ e ∈ dir.content, sameKey hash e.1 p → e.1 = p :=
  fun e he hsame => (h.plain e he).elements_injective hp hsame.2

/-- A plain view stays plain when a plain path is entered. -/
theorem PlainView.note {env : Env} {d : Loc} {dir : Dir} (h : PlainView d dir) {p : Path}
    (hp : PlainPath p) (r : Resource) : PlainView d (noteChunk env dir p (some r)) where
  path := by rw [noteChunk_path, h.path]
  plain := by
    intro e he
    rcases (Dir.mem_insertOrAssign (h.keys hp env.hash) e).mp he with rfl | ⟨-, he⟩
    · exact hp
    · exact h.plain e he

/-- A plain view stays plain when an entry goes. -/
theorem PlainView.erase {d : Loc} {dir : Dir} (h : PlainView d dir) {p : Path} (hp : PlainPath p)
    (hash : Bytes → UInt64) : PlainView d (dir.erase hash p).1 where
  path := h.path
  plain e he := h.plain e ((Dir.mem_erase (h.keys hp hash) e).mp he).2

/-- To note a chunk is to enter its path with the state of its entry. -/
theorem enters_note {env : Env} {d : Loc} {dir : Dir} (h : PlainView d dir) {p : Path}
    (hp : PlainPath p) (w w' : World) (id : Bytes) (r : Resource) :
    (catalogOf w id d dir).Enters (catalogOf w' id d (noteChunk env dir p (some r))) p r.synced
      r.digest := by
  intro k s x
  refine (Dir.mem_insertOrAssign (h.keys hp env.hash) (k, ⟨s, x⟩)).trans (or_congr_left ?_)
  cases r
  simp

/-- To erase an entry is to take its path off the list. -/
theorem unlists_erase {d : Loc} {dir : Dir} (h : PlainView d dir) {p : Path} (hp : PlainPath p)
    (hash : Bytes → UInt64) (w w' : World) (id : Bytes) :
    (catalogOf w id d dir).Unlists (catalogOf w' id d (dir.erase hash p).1) p :=
  fun k s x => Dir.mem_erase (h.keys hp hash) (k, ⟨s, x⟩)

/-! ### Steps of the catalog -/

/-- The steps of the catalog of a session. -/
def CatalogStep (env : Env) (d : Loc) :
    Catalog Path Loc Nat Bytes Bytes → Catalog Path Loc Nat Bytes Bytes → Prop :=
  Catalog.Step (place d) draft (fileDigest env)

/-- The catalog of a session mirrors the files. -/
def Mirrors (env : Env) (w : World) (id : Bytes) (d : Loc) (dir : Dir) : Prop :=
  Catalog.Consistent (place d) draft (fileDigest env) (catalogOf w id d dir)

/-- What moves nothing is a step of the catalog, one that changes nothing. -/
theorem frame_step {env : Env} {w w' : World} {id : Bytes} (d : Loc) (dir : Dir)
    (h : Frame id w w') : CatalogStep env d (catalogOf w id d dir) (catalogOf w' id d dir) :=
  .write _ _ (fun _ _ _ => Iff.rfl) (fun l i => and_congr_right fun _ => h.files l i) h.openOn
    fun _ => fun i _ => h.bytes i

/-- A file that is put below the directory is put into the catalog. -/
theorem PutsFile.puts {w w' : World} {d l : Loc} {i : Nat} (h : PutsFile w w' l i) (hl : d <+: l)
    (id : Bytes) (dir dir' : Dir) :
    (catalogOf w id d dir).Puts (catalogOf w' id d dir') l i := by
  intro l' j
  show d <+: l' ∧ w'.disk.node l' = some (.file j) ↔
    (d <+: l' ∧ w.disk.node l' = some (.file j)) ∨ (l' = l ∧ j = i)
  rw [h.files, and_or_left]
  refine or_congr_right ⟨fun h => h.2, ?_⟩
  rintro ⟨rfl, rfl⟩
  exact ⟨hl, rfl, rfl⟩

/-- A chunk of a CREATE enters its key. -/
theorem enter_step {env : Env} {w w' : World} {id : Bytes} {d : Loc} {dir : Dir} {p : Path}
    {i : Nat} (hd : d ≠ []) (hview : PlainView d dir) (hp : PlainPath p)
    (hsole : ∀ e ∈ dir.content, place d e.1 = place d p → e.1 = p)
    (hputs : PutsFile w w' (place d p) i) (hbefore : w.openOn id = none ∨ w.openOn id = some i)
    (hafter : w'.openOn id = none ∨ w'.openOn id = some i) (x : Bytes) :
    CatalogStep env d (catalogOf w id d dir)
      (catalogOf w' id d (noteChunk env dir p (some ⟨false, x⟩))) :=
  .enter _ _ p x i (enters_note hview hp w w' id ⟨false, x⟩)
    (hputs.puts (plain_placed hd hp).below id dir _) hputs.bytes
    (fun k s y hk heq => hsole (k, ⟨s, y⟩) hk heq) (fun j hj => hputs.file j hj.2)
    (fun l hl => hputs.place l hl.2) hbefore hafter

/-- Removing the file of a key whose entry goes too. -/
theorem drop_step {env : Env} {w : World} {id : Bytes} {d : Loc} {dir dir' : Dir} {p : Path}
    {r : Resource} {i : Nat} (hkey : (p, r) ∈ dir.content)
    (hunlists : (catalogOf w id d dir).Unlists (catalogOf w id d dir') p)
    (hfile : w.disk.node (place d p) = some (.file i))
    (hremove : (w.remove env (toPath (place d p))).2 = true)
    (hdraft : ∀ j, w.openOn id = some j → ¬(catalogOf w id d dir).stands (draft (place d p)) j) :
    CatalogStep env d (catalogOf w id d dir)
      (catalogOf (w.remove env (toPath (place d p))).1 id d dir') := by
  have hnode := World.remove_node (Disk.locate_toPath_of_node (by rw [hfile]; simp)) hfile hremove
  refine .drop _ _ p r.synced r.digest hkey hunlists ?_ (World.remove_content env w _) hdraft
    (openOn_congr (World.remove_streams env w _))
  intro l j
  show d <+: l ∧ (w.remove env (toPath (place d p))).1.disk.node l = some (.file j) ↔
    l ≠ place d p ∧ d <+: l ∧ w.disk.node l = some (.file j)
  rw [hnode]
  by_cases hl : l = place d p
  · subst hl
    simp
  · rw [Function.update_of_ne hl]
    simp [hl]

/-- The digest check settles the key or drops it. `dirm` is a view in which the key is not
synced yet, and which agrees with `dir` on the others. -/
theorem CheckEnds.step {env : Env} {w : World} {u : User} {d : Loc} {dir dirm : Dir}
    {replies : MessageQueue} {p digest x : Bytes} {err : ErrType} {o : Outcome} {i : Nat}
    (h : CheckEnds env w u (noteChunk env dir p (some ⟨true, digest⟩)) replies
      (toPath (place d p)) p digest err o) {r : Reply} (hr : o.result = .ok r) (hd : d ≠ [])
    (hview : PlainView d dir) (hp : PlainPath p)
    (hentered : (catalogOf w u.id d dir).Enters (catalogOf w u.id d dirm) p false x)
    (hfile : w.disk.node (place d p) = some (.file i)) (hclosed : w.openOn u.id = none) :
    ∃ dir', o.user = { u with dir := some dir' } ∧ PlainView d dir' ∧
      CatalogStep env d (catalogOf w u.id d dirm) (catalogOf o.world u.id d dir') := by
  have hplaced := plain_placed hd hp
  have hread := Disk.read_toPath hfile
  have hnoted := @enters_note env d dir hview p hp w w u.id ⟨true, digest⟩
  have hnotedview : PlainView d (noteChunk env dir p (some ⟨true, digest⟩)) := hview.note hp _
  cases h with
  | unreadable => cases hr
  | stuck => cases hr
  -- The entry is settled: it gets its digest, and nothing is written any more.
  | matching hmatch =>
      refine ⟨_, rfl, hnotedview, ?_⟩
      have hdigest : fileDigest env p (w.disk.content i) = digest := by
        rw [World.md5Hash_of_read hread] at hmatch
        split at hmatch
        · exact absurd hmatch (by simp)
        · exact Except.ok.inj hmatch
      exact .settle _ _ p x digest i hentered.self (hentered.again hnoted) (fun _ _ => Iff.rfl) rfl
        ⟨hplaced.below, hfile⟩ hdigest hclosed hclosed
  | mismatch found hfound hne hremove =>
      refine ⟨_, rfl, hnotedview.erase hp env.hash, ?_⟩
      exact @drop_step env (checked w (toPath (place d p))) u.id d dirm _ p ⟨false, x⟩ i
        hentered.self
        (hentered.unlists hnoted (unlists_erase hnotedview hp env.hash w w u.id)) hfile hremove
        fun f hf => absurd (hclosed.symm.trans hf) (by simp)

/-- Without a stream nothing is open. -/
theorem noStream_openOn {w : World} {id : Bytes} (h : w.streams id = none) :
    w.openOn id = none := by
  rw [World.openOn, h]
  rfl

/-! ### CREATE -/

/-- What a CREATE of `p` needs: a stream that fits, and no other key for the same file. -/
structure CreateFits (w : World) (id : Bytes) (d : Loc) (dir : Dir) (p : Path) : Prop where
  stream : StreamFits w id (append dir.path p)
  sole : ∀ e ∈ dir.content, place d e.1 = place d p → e.1 = p

/-- A stream that fits a place still does after a step that moves nothing. -/
theorem StreamFits.frame {id : Bytes} {w w' : World} {l : Loc} (h : StreamFits w id (toPath l))
    (hstreams : w'.streams id = w.streams id) (hframe : Frame id w w') :
    StreamFits w' id (toPath l) := by
  rcases h with hnone | ⟨i, hstatus, hopen⟩
  · exact Or.inl (hstreams.trans hnone)
  · rw [Disk.status_toPath] at hstatus
    refine Or.inr ⟨i, ?_, by rwa [hframe.openOn]⟩
    rw [Disk.status_toPath, hframe.files, hstatus]

/-- A CREATE that the process survives is a run of steps of the catalog. -/
theorem createTransfer_steps {env : Env} {w : World} {u : User} {d : Loc} {dir : Dir}
    {view : TlvView} {replies : MessageQueue} {p digest : Bytes} {r : Reply} (hd : d ≠ [])
    (hdir : u.dir = some dir) (hview : PlainView d dir) (hp : PlainPath p)
    (hfits : CreateFits w u.id d dir p)
    (hr : (createTransfer env w u dir view replies p digest).result = .ok r) :
    ∃ dir', (createTransfer env w u dir view replies p digest).user = { u with dir := some dir' } ∧
      PlainView d dir' ∧ ReflTransGen (CatalogStep env d) (catalogOf w u.id d dir)
        (catalogOf (createTransfer env w u dir view replies p digest).world u.id d dir') := by
  have hplaced := plain_placed hd hp
  have hpath : append dir.path p = toPath (place d p) := by rw [hview.path, hplaced.path]
  have hcreated := created_frame env w dir p u.id
  have hstream : StreamFits (created env w dir p) u.id (toPath (place d p)) := by
    refine StreamFits.frame (hpath ▸ hfits.stream) ?_ hcreated
    rw [created, World.createDirectories_streams]
  have hsame : u = { u with dir := some dir } := by rw [← hdir]
  have hends := createTransfer_ends env w u dir view replies p digest
  generalize createTransfer env w u dir view replies p digest = o at hends hr ⊢
  cases hends with
  | noParent => exact ⟨dir, hsame, hview, .single (frame_step d dir hcreated)⟩
  | hasParent _ _ hwrite =>
      rw [hpath] at hwrite
      cases hwrite with
      | noStream husable =>
          exact ⟨dir, hsame, hview,
            .single (frame_step d dir (hcreated.trans (noStream_frame hstream husable)))⟩
      | badContent => cases hr
      | badEnd => cases hr
      | stored husable content =>
          obtain ⟨i, hputs, hopen, hbefore⟩ := transfer_puts content true hstream husable
          rcases hfirst : (created env w dir p).streams u.id with _ | stream
          · -- The first chunk opens the stream and enters the key.
            have hnone := noStream_openOn hfirst
            refine ⟨_, rfl, hview.note hp _, .single (enter_step hd hview hp hfits.sole
              (hputs.after hcreated (Or.inl (hcreated.openOn.symm.trans hnone)))
              (Or.inl (hcreated.openOn.symm.trans hnone)) (Or.inr hopen) tempDigest)⟩
          · -- A later chunk only writes.
            have hkept := @kept_frame env _ _ _ content true hstream (by rw [hfirst]; simp)
            exact ⟨dir, rfl, hview, .single (frame_step d dir (hcreated.trans hkept))⟩
      | last husable content _ _ _ hcheck =>
          obtain ⟨i, hputs, hopen, hbefore⟩ := transfer_puts content true hstream husable
          have hbefore' : w.openOn u.id = none ∨ w.openOn u.id = some i := by
            rw [← hcreated.openOn]
            exact hbefore.imp noStream_openOn id
          have hputs' := (hputs.close hopen).after hcreated hbefore'
          have henter := @enter_step env w _ u.id d dir p i hd hview hp hfits.sole hputs' hbefore'
            (Or.inl (closed_openOn _ _)) digest
          obtain ⟨dir', huser, hview', hstep⟩ := hcheck.step hr hd hview hp
            (enters_note hview hp _ _ _ ⟨false, digest⟩)
            ((hputs'.files _ _).mpr (Or.inr ⟨rfl, rfl⟩)) (closed_openOn _ _)
          exact ⟨dir', huser, hview', .tail (.single henter) hstep⟩

/-! ### UPDATE -/

/-- What an UPDATE of `p` needs: a stream that fits, and no key for the temporary file. -/
structure UpdateFits (w : World) (id : Bytes) (d : Loc) (dir : Dir) (p : Path) : Prop where
  stream : StreamFits w id (tempPath (append dir.path p))
  free : ∀ e ∈ dir.content, place d e.1 ≠ draft (place d p)

/-- The first chunk of an UPDATE begins a draft. -/
theorem begin_step {env : Env} {w w' : World} {id : Bytes} {d : Loc} {dir : Dir} {p : Path}
    {i : Nat} (hd : d ≠ []) (hview : PlainView d dir) (hp : PlainPath p)
    (hmirrors : Mirrors env w id d dir) {r : Resource} (hkey : (p, r) ∈ dir.content)
    (hfree : ∀ e ∈ dir.content, place d e.1 ≠ draft (place d p))
    (hputs : PutsFile w w' (draft (place d p)) i) (hbefore : w.openOn id = none)
    (hafter : w'.openOn id = some i) (x : Bytes) :
    CatalogStep env d (catalogOf w id d dir)
      (catalogOf w' id d (noteChunk env dir p (some ⟨false, x⟩))) := by
  have hplaced := plain_placed hd hp
  refine .begin _ _ p r.synced r.digest x i hkey (enters_note hview hp w w' id ⟨false, x⟩)
    (hputs.puts hplaced.draft_below id dir _) hputs.bytes
    (fun k s y hk => hfree (k, ⟨s, y⟩) hk) ?_ hbefore hafter
  -- A file at the draft's place would be that of a key.
  intro l hl
  obtain rfl := hputs.place l hl.2
  rcases hmirrors.known _ i hl with ⟨k, s, y, hk, hplace⟩ | ⟨k, y, -, -, hwriting⟩
  · exact hfree (k, ⟨s, y⟩) hk hplace
  · have hsome : w.openOn id = some i := hwriting
    rw [hbefore] at hsome
    exact absurd hsome (by simp)

/-- A user who writes to the draft of a key has that key unsynced. -/
theorem drafting_unsynced {env : Env} {w : World} {id : Bytes} {d : Loc} {dir : Dir} {p : Path}
    {i : Nat} (hd : d ≠ []) (hview : PlainView d dir) (hp : PlainPath p)
    (hmirrors : Mirrors env w id d dir) {r : Resource} (hkey : (p, r) ∈ dir.content)
    (hfree : ∀ e ∈ dir.content, place d e.1 ≠ draft (place d p)) (hopen : w.openOn id = some i)
    (hfile : w.disk.node (draft (place d p)) = some (.file i)) :
    ∃ x, (p, ⟨false, x⟩) ∈ dir.content := by
  have hplaced := plain_placed hd hp
  have hstands : (catalogOf w id d dir).stands (draft (place d p)) i := ⟨hplaced.draft_below, hfile⟩
  rcases hmirrors.owned i hopen with hnone | ⟨k, x, hk, hf⟩ | ⟨k, x, hk, hf, -⟩
  · exact absurd hstands (hnone _)
  · exact absurd (hmirrors.one_place _ _ _ hf hstands) (hfree (k, ⟨false, x⟩) hk)
  · have hplace := hmirrors.one_place _ _ _ hf hstands
    have hne := (plain_placed hd (hview.plain _ hk)).ne_nil
    have hkp := (hmirrors.sole k false x p r.synced r.digest hk hkey
      (draft_injective hne hplaced.ne_nil hplace)).1
    exact ⟨x, hkp ▸ hk⟩

/-- Where the files stand after UPDATE has put the temporary file in place. -/
theorem renamed_node {env : Env} {w : World} {l : Loc} {i j : Nat}
    (htemp : tempPath (toPath l) = toPath (draft l)) (hne : draft l ≠ l)
    (hdraft : w.disk.node (draft l) = some (.file i)) (hfile : w.disk.node l = some (.file j))
    (hremove : (w.remove env (toPath l)).2 = true)
    (hrename : ((removed env w (toPath l)).rename env (tempPath (toPath l)) (toPath l)).2 = true)
    (k : Loc) : (renamed env w (toPath l)).disk.node k =
      if k = l then some (.file i) else if k = draft l then none else w.disk.node k := by
  have hl := Disk.ne_nil_of_file hfile
  have hgone : (removed env w (toPath l)).disk.node = Function.update w.disk.node l none :=
    World.remove_node (Disk.locate_toPath_of_node (by rw [hfile]; simp)) hfile hremove
  have hfree : (removed env w (toPath l)).disk.Free l := by
    refine ⟨hl, ?_, ?_⟩
    · rw [hgone, Function.update_self]
    · rw [hgone, Function.update_of_ne (Disk.dropLast_ne_self hl)]
      exact w.disk.parent_dir l hl (by rw [hfile]; simp)
  have hsrc : (removed env w (toPath l)).disk.node (draft l) = some (.file i) := by
    rw [hgone, Function.update_of_ne hne, hdraft]
  -- The file has gone, so the draft moves to a free place.
  have hmoved := (Disk.rename_file hsrc hfree).2
  rw [htemp] at hrename
  have hdisk : (renamed env w (toPath l)).disk =
      ((removed env w (toPath l)).disk.rename (toPath (draft l)) (toPath l)).1 := by
    rw [renamed, htemp]
    unfold World.rename at hrename ⊢
    split
    · rename_i hfails
      rw [if_pos hfails] at hrename
      exact absurd hrename (by simp)
    · rfl
  rw [hdisk, hmoved k, hgone]
  by_cases hk : k = l
  · rw [if_pos hk, if_pos hk]
  · rw [if_neg hk, if_neg hk, Function.update_of_ne hk]

/-- The last chunk puts the draft in place of the file. -/
theorem replace_step {env : Env} {w : World} {id : Bytes} {d : Loc} {dir : Dir} {p : Path}
    {i j : Nat} (hplaced : Placed d p) {x : Bytes} (hkey : (p, ⟨false, x⟩) ∈ dir.content)
    (hfree : ∀ e ∈ dir.content, place d e.1 ≠ draft (place d p))
    (hopen : w.openOn id = some i) (hdraft : w.disk.node (draft (place d p)) = some (.file i))
    (hfile : w.disk.node (place d p) = some (.file j))
    (hremove : ((closed w id).remove env (toPath (place d p))).2 = true)
    (hrename : ((removed env (closed w id) (toPath (place d p))).rename env
      (tempPath (toPath (place d p))) (toPath (place d p))).2 = true) :
    CatalogStep env d (catalogOf w id d dir)
        (catalogOf (renamed env (closed w id) (toPath (place d p))) id d dir) ∧
      (renamed env (closed w id) (toPath (place d p))).disk.node (place d p) = some (.file i) ∧
      (renamed env (closed w id) (toPath (place d p))).openOn id = none := by
  have hclosed : (closed w id).disk.node = w.disk.node := World.closed_node w id
  have hnode := @renamed_node env (closed w id) (place d p) i j hplaced.temp hplaced.draft_ne
    (by rw [hclosed, hdraft]) (by rw [hclosed, hfile]) hremove hrename
  have hafter : (renamed env (closed w id) (toPath (place d p))).openOn id = none := by
    rw [← closed_openOn w id]
    refine openOn_congr ?_
    rw [renamed, World.rename_streams, removed, World.remove_streams]
  refine ⟨.replace _ _ p x i hkey (fun _ _ _ => Iff.rfl) ⟨hplaced.draft_below, hdraft⟩ ?_ ?_
    (fun k s y hk => hfree (k, ⟨s, y⟩) hk) hopen hafter, by rw [hnode, if_pos rfl], hafter⟩
  · intro l g
    show d <+: l ∧ (renamed env (closed w id) (toPath (place d p))).disk.node l = some (.file g) ↔
      (l = place d p ∧ g = i) ∨
        (l ≠ place d p ∧ l ≠ draft (place d p) ∧ d <+: l ∧ w.disk.node l = some (.file g))
    rw [hnode, hclosed]
    -- The file's place holds the draft's file now, and the draft's place holds nothing.
    by_cases hl : l = place d p
    · subst hl
      simp [hplaced.below, eq_comm]
    · by_cases hl' : l = draft (place d p)
      · simp [hl', hplaced.draft_ne]
      · simp [hl, hl']
  · intro g hg
    show (renamed env (closed w id) (toPath (place d p))).disk.content g = w.disk.content g
    rw [renamed, World.rename_content, removed, World.remove_content, closed, World.closed_disk,
      World.flush_content_of_ne _ _ (by simpa [hopen] using Ne.symm hg)]

/-- Before the last chunk of an UPDATE replaces the file, its draft is begun. `dirm` is the view
with the key unsynced. -/
theorem drafted_steps {env : Env} {w : World} {id : Bytes} {d : Loc} {dir : Dir} {p : Path}
    (hd : d ≠ []) (hview : PlainView d dir) (hp : PlainPath p) (hmirrors : Mirrors env w id d dir)
    {r : Resource} (hkey : (p, r) ∈ dir.content)
    (hfree : ∀ e ∈ dir.content, place d e.1 ≠ draft (place d p))
    (hstream : StreamFits w id (toPath (draft (place d p)))) (content : Bytes) {i : Nat}
    (hputs : PutsFile w
      (written env (opened env w id (toPath (draft (place d p)))) id content false)
      (draft (place d p)) i)
    (hopen : (written env (opened env w id (toPath (draft (place d p)))) id content false).openOn
      id = some i)
    (hbefore : w.streams id = none ∨ w.openOn id = some i) :
    ∃ dirm x, PlainView d dirm ∧
      (catalogOf w id d dir).Enters (catalogOf w id d dirm) p false x ∧
      CatalogStep env d (catalogOf w id d dir)
        (catalogOf (written env (opened env w id (toPath (draft (place d p)))) id content false) id
          d dirm) := by
  rcases hbefore with hnone | hsome
  · exact ⟨_, [], hview.note hp _, enters_note hview hp w w id ⟨false, []⟩,
      begin_step hd hview hp hmirrors hkey hfree hputs (noStream_openOn hnone) hopen []⟩
  · have hfile : w.disk.node (draft (place d p)) = some (.file i) := by
      rcases hstream with hnone | ⟨j, hstatus, hj | hj⟩
      · rw [noStream_openOn hnone] at hsome
        exact absurd hsome (by simp)
      · rw [hsome] at hj
        rw [Option.some.inj hj, ← Disk.status_toPath, hstatus]
      · rw [hsome] at hj
        exact absurd hj (by simp)
    obtain ⟨x, hx⟩ := drafting_unsynced hd hview hp hmirrors hkey hfree hsome hfile
    have hne : w.streams id ≠ none := by
      intro hnone
      rw [noStream_openOn hnone] at hsome
      exact absurd hsome (by simp)
    exact ⟨dir, x, hview, Catalog.Enters.of_listed hmirrors (fun _ _ _ => Iff.rfl) hx,
      frame_step d dir (kept_frame content false hstream hne)⟩

/-- An UPDATE that the process survives is a run of steps of the catalog. -/
theorem updateTransfer_steps {env : Env} {w : World} {u : User} {d : Loc} {dir : Dir}
    {view : TlvView} {replies : MessageQueue} {p digest oldDigest : Bytes} {r : Reply} (hd : d ≠ [])
    (hdir : u.dir = some dir) (hview : PlainView d dir) (hp : PlainPath p)
    (hmirrors : Mirrors env w u.id d dir) {e : Resource} (hkey : (p, e) ∈ dir.content)
    (hfits : UpdateFits w u.id d dir p)
    (hr : (updateTransfer env w u dir view replies p digest oldDigest).result = .ok r) :
    ∃ dir', (updateTransfer env w u dir view replies p digest oldDigest).user =
        { u with dir := some dir' } ∧
      PlainView d dir' ∧ ReflTransGen (CatalogStep env d) (catalogOf w u.id d dir)
        (catalogOf (updateTransfer env w u dir view replies p digest oldDigest).world u.id d
          dir') := by
  have hplaced := plain_placed hd hp
  have hpath : append dir.path p = toPath (place d p) := by rw [hview.path, hplaced.path]
  have hstream : StreamFits w u.id (toPath (draft (place d p))) := by
    rw [← hplaced.temp, ← hpath]
    exact hfits.stream
  have hsame : u = { u with dir := some dir } := by rw [← hdir]
  have hends := updateTransfer_ends env w u dir view replies p digest oldDigest
  generalize updateTransfer env w u dir view replies p digest oldDigest = o at hends hr ⊢
  rw [hpath, hplaced.temp] at hends
  cases hends with
  | noStream husable =>
      exact ⟨dir, hsame, hview, .single (frame_step d dir (noStream_frame hstream husable))⟩
  | badContent => cases hr
  | badEnd => cases hr
  | stored husable content =>
      obtain ⟨i, hputs, hopen, hbefore⟩ := transfer_puts content false hstream husable
      rcases hfirst : w.streams u.id with _ | stream
      · -- The first chunk opens the stream on the temporary file.
        exact ⟨_, rfl, hview.note hp _, .single (begin_step hd hview hp hmirrors hkey hfits.free
          hputs (noStream_openOn hfirst) hopen oldDigest)⟩
      · have hkept := @kept_frame env _ _ _ content false hstream (by rw [hfirst]; simp)
        exact ⟨dir, rfl, hview, .single (frame_step d dir hkept)⟩
  | last husable content _ _ _ hreplace =>
      obtain ⟨i, hputs, hopen, hbefore⟩ := transfer_puts content false hstream husable
      obtain ⟨dirm, x, hviewm, hentered, hdrafted⟩ := drafted_steps hd hview hp hmirrors hkey
        hfits.free hstream content hputs hopen hbefore
      cases hreplace with
      | notRemoved => cases hr
      | notRenamed => cases hr
      | replaced hremove hrename _ hcheck =>
          obtain ⟨j, hj, -⟩ := hmirrors.stored p e.synced e.digest hkey
          have hfreem : ∀ e' ∈ dirm.content, place d e'.1 ≠ draft (place d p) := by
            rintro ⟨k, s, y⟩ hk
            rcases (hentered k s y).mp hk with ⟨rfl, -, -⟩ | ⟨-, hk⟩
            · exact hplaced.draft_ne.symm
            · exact hfits.free (k, ⟨s, y⟩) hk
          obtain ⟨hreplaced, hfile, hnone⟩ := replace_step hplaced hentered.self hfreem hopen
            ((hputs.files _ _).mpr (Or.inr ⟨rfl, rfl⟩)) ((hputs.files _ _).mpr (Or.inl hj.2))
            hremove hrename
          obtain ⟨dir', huser, hview', hstep⟩ := hcheck.step hr hd hview hp hentered hfile hnone
          exact ⟨dir', huser, hview', .tail (.tail (.single hdrafted) hreplaced) hstep⟩

/-! ### ERASE -/

/-- What an ERASE of `p` needs: the user is not in the middle of an UPDATE of it. -/
def EraseFits (w : World) (id : Bytes) (d : Loc) (p : Path) : Prop :=
  ∀ i, w.openOn id = some i → w.disk.node (draft (place d p)) ≠ some (.file i)

/-- Removing a directory leaves the files alone. -/
theorem emptied_frame {env : Env} {w : World} {k : Loc} (id : Bytes)
    (hk : w.disk.node k = some .dir) : Frame id w (emptied env w (toPath k)) where
  files := by
    intro l i
    rcases (w.record (.isEmpty (toPath k))).remove_cases env (toPath k) with hsame |
      ⟨l', hl', hne, -, hchildren, hdetach, -⟩
    · rw [emptied, hsame]
      rfl
    · obtain rfl := Disk.eq_of_locate_toPath hl'
      rw [emptied, hdetach, Disk.detach_node hne hchildren]
      show Function.update w.disk.node l' none l = some (.file i) ↔ _
      by_cases hll : l = l'
      · subst hll
        rw [Function.update_self, hk]
        simp
      · rw [Function.update_of_ne hll]
  bytes i _ := congrFun (World.remove_content env _ _) i
  openOn := openOn_congr (World.remove_streams env _ _)

/-- The parent of a directory stays a directory when the directory goes. -/
theorem emptied_parent {env : Env} {w : World} {l : Loc} {n : Name}
    (h : w.disk.node (l ++ [n]) = some .dir) :
    (emptied env w (toPath (l ++ [n]))).disk.node l = some .dir := by
  have hl : w.disk.node l = some .dir := by
    have hparent := w.disk.parent_dir (l ++ [n]) (by simp) (by rw [h]; simp)
    rwa [List.dropLast_concat] at hparent
  rcases (w.record (.isEmpty (toPath (l ++ [n])))).remove_cases env (toPath (l ++ [n])) with hsame |
    ⟨k, hk, hne, -, hchildren, hdetach, -⟩
  · rw [emptied, hsame]
    exact hl
  · obtain rfl := Disk.eq_of_locate_toPath hk
    rw [emptied, hdetach, Disk.detach_node hne hchildren, Function.update_of_ne (by simp)]
    exact hl

/-- The loop that removes emptied directories leaves the files alone. Induction on the
rounds: `tmp` is a directory, and so is its parent. -/
theorem cleanup_frame {env : Env} {dirPath : Path} (id : Bytes) (fuel : Nat) {w : World}
    {tmp : Path} (h : tmp = [] ∨ ∃ k, tmp = toPath k ∧ w.disk.node k = some .dir) :
    Frame id w (cleanup env dirPath fuel w tmp) := by
  induction fuel generalizing w tmp with
  | zero => exact .refl id w
  | succ fuel ih =>
      have hround := cleanup_round env dirPath fuel w tmp
      generalize cleanup env dirPath (fuel + 1) w tmp = w' at hround ⊢
      -- The empty path is not an empty directory.
      have hdir : (w.isEmpty env tmp).2 = some true → ∃ k, tmp = toPath k ∧
          w.disk.node k = some .dir := by
        rcases h with rfl | hdir
        · rw [isEmpty_nil]
          exact fun hempty => absurd hempty (by simp)
        · exact fun _ => hdir
      cases hround with
      | atDir => exact .refl id w
      | notEmpty => exact ⟨fun _ _ => Iff.rfl, fun _ _ => rfl, rfl⟩
      | failed _ hempty =>
          obtain ⟨k, rfl, hk⟩ := hdir hempty
          exact emptied_frame id hk
      | next _ hempty =>
          obtain ⟨k, rfl, hk⟩ := hdir hempty
          refine (emptied_frame id hk).trans (ih ?_)
          rcases k.eq_nil_or_concat' with rfl | ⟨l, n, rfl⟩
          · exact Or.inl (by decide)
          · exact Or.inr ⟨l, parentPath_toPath l n, emptied_parent hk⟩

/-- An ERASE is a run of steps of the catalog. -/
theorem eraseEntry_steps {env : Env} {w : World} {u : User} {d : Loc} {dir : Dir}
    {replies : MessageQueue} {p : Path} (hd : d ≠ []) (hdir : u.dir = some dir)
    (hview : PlainView d dir) (hp : PlainPath p) (hmirrors : Mirrors env w u.id d dir)
    {e : Resource} (hkey : (p, e) ∈ dir.content) (hfits : EraseFits w u.id d p) :
    ∃ dir', (eraseEntry env w u dir replies p).user = { u with dir := some dir' } ∧
      PlainView d dir' ∧ ReflTransGen (CatalogStep env d) (catalogOf w u.id d dir)
        (catalogOf (eraseEntry env w u dir replies p).world u.id d dir') := by
  have hplaced := plain_placed hd hp
  have hpath : append dir.path p = toPath (place d p) := by rw [hview.path, hplaced.path]
  obtain ⟨i, hi, -⟩ := hmirrors.stored p e.synced e.digest hkey
  have hfile : w.disk.node (place d p) = some (.file i) := hi.2
  have hlocated : w.disk.locate (toPath (place d p)) = some (place d p) :=
    Disk.locate_toPath_of_node (by rw [hfile]; simp)
  simp only [eraseEntry, hpath]
  cases hremove : (w.remove env (toPath (place d p))).2 with
  | false =>
      -- A fault: the file and its entry stay.
      rw [eq_of_snd hremove]
      refine ⟨dir, by rw [← hdir]; rfl, hview, .single (frame_step d dir ⟨?_, ?_, ?_⟩)⟩
      · intro l j
        show (w.remove env (toPath (place d p))).1.disk.node l = some (.file j) ↔ _
        rw [World.remove_node_of_failed hlocated hfile hremove]
      · exact fun j _ => congrFun (World.remove_content env _ _) j
      · exact openOn_congr (World.remove_streams env _ _)
  | true =>
      rw [eq_of_snd hremove]
      have hdrop := drop_step hkey (unlists_erase hview hp env.hash w w u.id) hfile hremove
        fun j hj hdraft => hfits j hj hdraft.2
      refine ⟨_, rfl, hview.erase hp env.hash, .tail (.single hdrop) (frame_step d _ ?_)⟩
      -- The loop starts at the file's directory.
      obtain ⟨l, n, hln⟩ := (List.eq_nil_or_concat' (place d p)).resolve_left hplaced.ne_nil
      refine cleanup_frame u.id _ (Or.inr ⟨l, ?_, ?_⟩)
      · rw [hln, parentPath_toPath]
      · have hparent := w.disk.parent_dir (place d p) hplaced.ne_nil (by rw [hfile]; simp)
        rw [World.remove_node hlocated hfile hremove, Function.update_of_ne]
        · rwa [hln, List.dropLast_concat] at hparent
        · rw [hln]
          simp

end RemoteBackup.Proofs
