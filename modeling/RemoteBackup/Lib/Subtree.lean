import RemoteBackup.Lib.FileTree

/-!
# `RemoteBackup.Lib.Subtree`: a tree seen from below one of its places

`look` is what a reader finds at a place: nothing, a directory, or a file with its bytes. Two
trees agree below `b` (`Agree`) when every place from `b` on looks the same in both, the places
are listed in the same order, and the same places above `b` are files. The inodes do not matter.

* `Agree.createDirectories`, `Agree.openAppend`, `Agree.remove`, `Agree.rename`, and so on: a
  call on a path below `b` does the same to two trees that agree.
* `Untouched`: a change of one tree that nobody below `b` sees. A call on a path that is apart
  from `b` is one, and two trees that agree still agree after it (`Untouched.agree`).
* `SameFile`: an inode of each tree that stands at the same places below `b`, so that a
  descriptor on the one and a descriptor on the other write to the same file.
-/

set_option autoImplicit false

namespace RemoteBackup.Lib

namespace Disk

/-! ### What a reader finds -/

/-- Nothing, a directory, or a file with its bytes. -/
def look (d : Disk) (l : Loc) : Option (Option Bytes) :=
  match d.node l with
  | none => none
  | some .dir => some none
  | some (.file i) => some (some (d.content i))

/-- A file stands there. -/
def IsFile (d : Disk) (l : Loc) : Prop := ∃ i, d.node l = some (.file i)

/-- Nothing is seen exactly where there is no entry. -/
theorem look_eq_none {d : Disk} {l : Loc} : d.look l = none ↔ d.node l = none := by
  unfold look
  split <;> simp_all

/-- A directory is seen as one. -/
theorem look_eq_dir {d : Disk} {l : Loc} : d.look l = some none ↔ d.node l = some .dir := by
  unfold look
  split <;> simp_all

/-- A file is seen with its bytes. -/
theorem look_of_file {d : Disk} {l : Loc} {i : Nat} (h : d.node l = some (.file i)) :
    d.look l = some (some (d.content i)) := by
  simp [look, h]

/-- What is seen with bytes is a file that holds them. -/
theorem look_eq_file {d : Disk} {l : Loc} {bytes : Bytes} :
    d.look l = some (some bytes) ↔ ∃ i, d.node l = some (.file i) ∧ d.content i = bytes := by
  unfold look
  split <;> simp_all

/-! ### Agreement below a place -/

/-- Two trees that nobody below `b` can tell apart. -/
structure Agree (b : Loc) (d d' : Disk) : Prop where
  look : ∀ l, b <+: l → d'.look l = d.look l
  support : d'.support.filter (b <+: ·) = d.support.filter (b <+: ·)
  above : ∀ l, l <+: b → l ≠ b → (d'.IsFile l ↔ d.IsFile l)

/-- The inodes stand at the same places below `b`. -/
def SameFile (b : Loc) (d d' : Disk) (i i' : Nat) : Prop :=
  ∀ l, b <+: l → (d'.node l = some (.file i') ↔ d.node l = some (.file i))

/-- A change that nobody below `b` sees: the nodes stay with their inodes and bytes. -/
structure Untouched (b : Loc) (d e : Disk) : Prop where
  node : ∀ l, b <+: l → e.node l = d.node l
  bytes : ∀ l i, b <+: l → d.node l = some (.file i) → e.content i = d.content i
  support : e.support.filter (b <+: ·) = d.support.filter (b <+: ·)
  above : ∀ l, l <+: b → l ≠ b → (e.IsFile l ↔ d.IsFile l)

variable {b : Loc} {d d' e e' : Disk}

/-- A disk agrees with itself. -/
theorem Agree.refl (b : Loc) (d : Disk) : Agree b d d :=
  ⟨fun _ _ => rfl, rfl, fun _ _ _ => Iff.rfl⟩

/-- Agreement has no direction. -/
theorem Agree.symm (h : Agree b d d') : Agree b d' d :=
  ⟨fun l hl => (h.look l hl).symm, h.support.symm, fun l hl hne => (h.above l hl hne).symm⟩

/-- Agreement can be chained. -/
theorem Agree.trans (h : Agree b d d') (h' : Agree b d' e) : Agree b d e :=
  ⟨fun l hl => (h'.look l hl).trans (h.look l hl), h'.support.trans h.support,
    fun l hl hne => (h'.above l hl hne).trans (h.above l hl hne)⟩

/-- That two inodes are one file has no direction. -/
theorem SameFile.symm {i i' : Nat} (h : SameFile b d d' i i') : SameFile b d' d i' i :=
  fun l hl => (h l hl).symm

/-- Nothing was done to a disk that did not change. -/
theorem Untouched.refl (b : Loc) (d : Disk) : Untouched b d d :=
  ⟨fun _ _ => rfl, fun _ _ _ _ => rfl, rfl, fun _ _ _ => Iff.rfl⟩

/-- Two changes that leave the directory alone leave it alone together. -/
theorem Untouched.trans (h : Untouched b d d') (h' : Untouched b d' e) : Untouched b d e where
  node l hl := (h'.node l hl).trans (h.node l hl)
  bytes l i hl hi := (h'.bytes l i hl ((h.node l hl).trans hi)).trans (h.bytes l i hl hi)
  support := h'.support.trans h.support
  above l hl hne := (h'.above l hl hne).trans (h.above l hl hne)

/-- What leaves the directory alone agrees with what was there. -/
theorem Untouched.agree_self (h : Untouched b d e) : Agree b d e where
  look := by
    intro l hl
    rcases hnode : d.node l with _ | _ | i
    · rw [look_eq_none.mpr hnode, look_eq_none, h.node l hl, hnode]
    · rw [look_eq_dir.mpr hnode, look_eq_dir, h.node l hl, hnode]
    · rw [look_of_file hnode, look_of_file ((h.node l hl).trans hnode), h.bytes l i hl hnode]
  support := h.support
  above := h.above

/-- Trees that agree still agree after a change of one of them that nobody sees. -/
theorem Untouched.agree (h : Untouched b d e) (hagree : Agree b d d') : Agree b e d' :=
  h.agree_self.symm.trans hagree

/-- A file below the directory stays the same file when the directory is left alone. -/
theorem Untouched.sameFile (h : Untouched b d e) {i i' : Nat} (hsame : SameFile b d d' i i') :
    SameFile b e d' i i' := by
  intro l hl
  rw [hsame l hl, h.node l hl]

/-- Disks that agree have the same places free. -/
theorem Agree.none_iff (h : Agree b d d') {l : Loc} (hl : b <+: l) :
    d'.node l = none ↔ d.node l = none := by
  rw [← look_eq_none, ← look_eq_none, h.look l hl]

/-- Disks that agree have the same directories. -/
theorem Agree.dir_iff (h : Agree b d d') {l : Loc} (hl : b <+: l) :
    d'.node l = some .dir ↔ d.node l = some .dir := by
  rw [← look_eq_dir, ← look_eq_dir, h.look l hl]

/-- A file that one tree has the other has as well, under an inode of its own. -/
theorem Agree.file (h : Agree b d d') {l : Loc} {i : Nat} (hl : b <+: l)
    (hi : d.node l = some (.file i)) :
    ∃ i', d'.node l = some (.file i') ∧ d'.content i' = d.content i ∧ SameFile b d d' i i' := by
  have hlook := (h.look l hl).trans (look_of_file hi)
  obtain ⟨i', hi', hcontent⟩ := look_eq_file.mp hlook
  refine ⟨i', hi', hcontent, fun k hk => ?_⟩
  -- A file stands at one place.
  constructor
  · intro hk'
    rw [d'.no_links k l i' hk' hi', hi]
  · intro hk'
    rw [d.no_links k l i hk' hi, hi']

/-- Nothing hangs in a place of the one tree exactly when nothing does in the other. -/
theorem Agree.children_iff (h : Agree b d d') {l : Loc} (hl : b <+: l) :
    d'.children l = [] ↔ d.children l = [] := by
  rw [children_eq_nil_iff, children_eq_nil_iff]
  refine forall_congr' fun k => imp_congr_right fun _ => imp_congr_right fun hkl => ?_
  refine h.none_iff (hl.trans ?_)
  rw [← hkl]
  exact List.dropLast_prefix k

/-! ### One entry -/

/-- A place below `b` is not above `b`, but for `b` itself. -/
theorem ne_of_below {l m : Loc} (hl : b <+: l) (hm : m <+: b) (hne : m ≠ b) : m ≠ l := by
  rintro rfl
  exact hne (hm.eq_of_length (Nat.le_antisymm hm.length_le hl.length_le))

/-- A location in front of two lists with the same part below `b` leaves them with the same part. -/
theorem filter_cons_congr {s s' : List Loc} (h : s'.filter (b <+: ·) = s.filter (b <+: ·))
    (l : Loc) : (l :: s').filter (b <+: ·) = (l :: s).filter (b <+: ·) := by
  rw [List.filter_cons, List.filter_cons, h]

/-- A new directory is seen at its place, and all else as before. -/
theorem look_addDir {l : Loc} (h : d.Free l) (k : Loc) :
    (d.addDir l).look k = if k = l then some none else d.look k := by
  unfold look
  rw [addDir_node h, addDir_content]
  by_cases hkl : k = l
  · rw [if_pos hkl, hkl, Function.update_self]
  · rw [if_neg hkl, Function.update_of_ne hkl]

/-- A new directory is no file, and no file gives way to it. -/
theorem isFile_addDir {l : Loc} (h : d.Free l) (k : Loc) :
    (d.addDir l).IsFile k ↔ d.IsFile k := by
  unfold IsFile
  rw [addDir_node h]
  by_cases hkl : k = l
  · subst hkl
    rw [Function.update_self, h.2.1]
    simp
  · rw [Function.update_of_ne hkl]

/-- A new directory comes in front of the entries. -/
theorem support_addDir {l : Loc} (h : d.Free l) : (d.addDir l).support = l :: d.support := by
  simp [addDir, h]

/-- The same new directory on both sides. -/
theorem Agree.addDir (h : Agree b d d') {l : Loc} (hfree : d.Free l) (hfree' : d'.Free l) :
    Agree b (d.addDir l) (d'.addDir l) where
  look k hk := by rw [look_addDir hfree, look_addDir hfree', h.look k hk]
  support := by
    rw [support_addDir hfree, support_addDir hfree']
    exact filter_cons_congr h.support l
  above k hk hne := by rw [isFile_addDir hfree, isFile_addDir hfree', h.above k hk hne]

/-- A new directory outside of the one that is looked at. -/
theorem Untouched.addDir {l : Loc} (hl : ¬ b <+: l) : Untouched b d (d.addDir l) := by
  by_cases hfree : d.Free l
  · constructor
    case node =>
      intro k hk
      rw [addDir_node hfree, Function.update_of_ne]
      rintro rfl
      exact hl hk
    case bytes => exact fun _ _ _ _ => by rw [addDir_content]
    case support => rw [support_addDir hfree, List.filter_cons_of_neg (by simpa using hl)]
    case above => exact fun k _ _ => isFile_addDir hfree k
  · rw [show d.addDir l = d by simp [Disk.addDir, hfree]]
    exact .refl b d

/-- A new file is seen without bytes, and all else as before. -/
theorem look_addFile {l : Loc} (h : d.Free l) (k : Loc) :
    (d.addFile l).look k = if k = l then some (some []) else d.look k := by
  by_cases hkl : k = l
  · subst hkl
    rw [if_pos rfl, look_of_file (i := d.next) (by rw [addFile_node h, Function.update_self]),
      addFile_content h, Function.update_self]
  · rw [if_neg hkl]
    rcases hnode : d.node k with _ | _ | i
    · rw [look_eq_none.mpr hnode, look_eq_none, addFile_node h, Function.update_of_ne hkl, hnode]
    · rw [look_eq_dir.mpr hnode, look_eq_dir, addFile_node h, Function.update_of_ne hkl, hnode]
    · -- The file was there, so its inode is not the new one.
      have hi : i ≠ d.next := Nat.ne_of_lt (d.fresh k i hnode)
      have hkept : (d.addFile l).node k = some (.file i) := by
        rw [addFile_node h, Function.update_of_ne hkl, hnode]
      rw [look_of_file hnode, look_of_file hkept, addFile_content h, Function.update_of_ne hi]

/-- A new file makes no other one. -/
theorem isFile_addFile {l : Loc} (h : d.Free l) {k : Loc} (hkl : k ≠ l) :
    (d.addFile l).IsFile k ↔ d.IsFile k := by
  unfold IsFile
  rw [addFile_node h, Function.update_of_ne hkl]

/-- A new file comes in front of the entries. -/
theorem support_addFile {l : Loc} (h : d.Free l) : (d.addFile l).support = l :: d.support := by
  simp [addFile, h]

/-- Where an inode stands after a new file: the new one in its place, an old one where it was. -/
theorem addFile_file {l : Loc} (h : d.Free l) (k : Loc) (i : Nat) :
    (d.addFile l).node k = some (.file i) ↔
      (k = l ∧ i = d.next) ∨ d.node k = some (.file i) := by
  rw [addFile_node h]
  by_cases hkl : k = l
  · subst hkl
    rw [Function.update_self, h.2.1]
    simp [eq_comm]
  · rw [Function.update_of_ne hkl]
    simp [hkl]

/-- The same new file on both sides. The inodes may differ. -/
theorem Agree.addFile (h : Agree b d d') {l : Loc} (hl : b <+: l) (hfree : d.Free l)
    (hfree' : d'.Free l) : Agree b (d.addFile l) (d'.addFile l) where
  look k hk := by rw [look_addFile hfree, look_addFile hfree', h.look k hk]
  support := by
    rw [support_addFile hfree, support_addFile hfree']
    exact filter_cons_congr h.support l
  above k hk hne := by
    rw [isFile_addFile hfree (ne_of_below hl hk hne), isFile_addFile hfree' (ne_of_below hl hk hne),
      h.above k hk hne]

/-- A file that was the same stays so when another one is added. -/
theorem SameFile.addFile {i i' : Nat} (h : SameFile b d d' i i') {l : Loc} (hfree : d.Free l)
    (hfree' : d'.Free l) (hi : i < d.next) (hi' : i' < d'.next) :
    SameFile b (d.addFile l) (d'.addFile l) i i' := by
  intro k hk
  rw [addFile_file hfree, addFile_file hfree', h k hk]
  have hne : i ≠ d.next := by omega
  have hne' : i' ≠ d'.next := by omega
  simp [hne, hne']

/-- The new files of both sides are one. -/
theorem sameFile_new {l : Loc} (hfree : d.Free l) (hfree' : d'.Free l) :
    SameFile b (d.addFile l) (d'.addFile l) d.next d'.next := by
  intro k _
  have hold : d.node k ≠ some (.file d.next) := fun hk => absurd (d.fresh k _ hk) (by omega)
  have hold' : d'.node k ≠ some (.file d'.next) := fun hk => absurd (d'.fresh k _ hk) (by omega)
  simp [addFile_file hfree, addFile_file hfree', hold, hold']

/-- A new file outside of the directory and not on the way to it. -/
theorem Untouched.addFile {l : Loc} (hfree : d.Free l) (hl : ¬ b <+: l) (hlb : ¬ l <+: b) :
    Untouched b d (d.addFile l) := by
  have hne : ∀ k, b <+: k → k ≠ l := by
    rintro k hk rfl
    exact hl hk
  constructor
  case node =>
    intro k hk
    rw [addFile_node hfree, Function.update_of_ne (hne k hk)]
  case bytes =>
    intro k i _ hi
    rw [addFile_content hfree, Function.update_of_ne (Nat.ne_of_lt (d.fresh k i hi))]
  case support => rw [support_addFile hfree, List.filter_cons_of_neg (by simpa using hl)]
  case above =>
    intro k hk _
    refine isFile_addFile hfree ?_
    rintro rfl
    exact hlb hk

/-- What has no children is no longer seen once it is detached, and all else as before. -/
theorem look_detach {l : Loc} (hl : l ≠ []) (h : d.children l = []) (k : Loc) :
    (d.detach l).look k = if k = l then none else d.look k := by
  unfold look
  rw [detach_node hl h, detach_content]
  by_cases hkl : k = l
  · rw [if_pos hkl, hkl, Function.update_self]
  · rw [if_neg hkl, Function.update_of_ne hkl]

/-- Detaching leaves the list of entries alone: only what stands at the place goes. -/
@[simp] theorem detach_support (d : Disk) (l : Loc) : (d.detach l).support = d.support := by
  unfold detach
  split <;> rfl

/-- The same entry without children goes on both sides. -/
theorem Agree.detach (h : Agree b d d') {l : Loc} (hl : b <+: l) (hne : l ≠ [])
    (hnone : d.children l = []) : Agree b (d.detach l) (d'.detach l) where
  look k hk := by
    rw [look_detach hne hnone, look_detach hne ((h.children_iff hl).mpr hnone), h.look k hk]
  support := by rw [detach_support, detach_support, h.support]
  above k hk hneb := by
    have hkl := ne_of_below hl hk hneb
    unfold IsFile
    rw [detach_node hne hnone, detach_node hne ((h.children_iff hl).mpr hnone),
      Function.update_of_ne hkl, Function.update_of_ne hkl]
    exact h.above k hk hneb

/-- A file that was the same stays so, or goes on both sides. -/
theorem SameFile.detach {i i' : Nat} (h : SameFile b d d' i i') (hagree : Agree b d d') {l : Loc}
    (hl : b <+: l) (hne : l ≠ []) (hnone : d.children l = []) :
    SameFile b (d.detach l) (d'.detach l) i i' := by
  intro k hk
  rw [detach_node hne hnone, detach_node hne ((hagree.children_iff hl).mpr hnone)]
  by_cases hkl : k = l
  · rw [hkl, Function.update_self, Function.update_self]
    simp
  · rw [Function.update_of_ne hkl, Function.update_of_ne hkl]
    exact h k hk

/-- An entry goes outside of the directory and not on the way to it. -/
theorem Untouched.detach {l : Loc} (hl : ¬ b <+: l) (hlb : ¬ l <+: b) :
    Untouched b d (d.detach l) := by
  by_cases h : l ≠ [] ∧ d.children l = []
  · have hnode : ∀ k, k ≠ l → (d.detach l).node k = d.node k := by
      intro k hk
      rw [detach_node h.1 h.2, Function.update_of_ne hk]
    constructor
    case node =>
      intro k hk
      refine hnode k ?_
      rintro rfl
      exact hl hk
    case bytes => exact fun _ _ _ _ => by rw [detach_content]
    case support => rw [detach_support]
    case above =>
      intro k hk _
      unfold IsFile
      -- A place above `b` is not `l`, for `l` is not above `b`.
      rw [hnode k]
      rintro rfl
      exact hlb hk
  · rw [show d.detach l = d by simp only [Disk.detach, dif_neg h]]
    exact .refl b d

/-! ### A subtree that moves -/

/-- What stood below the old place is seen below the new one. -/
theorem look_move {src dst : Loc} (h : d.Free dst) (hsrc : src ≠ []) (hp : ¬ src <+: dst)
    (k : Loc) : (d.move src dst).look k =
      if dst <+: k then d.look (src ++ k.drop dst.length)
      else if src <+: k then none else d.look k := by
  unfold look
  rw [move_node h hsrc hp, move_content, moved]
  by_cases hdk : dst <+: k
  · rw [if_pos hdk, if_pos hdk]
  · rw [if_neg hdk, if_neg hdk]
    by_cases hsk : src <+: k
    · rw [if_pos hsk, if_pos hsk]
    · rw [if_neg hsk, if_neg hsk]

/-- Where an entry goes when `src` moves to `dst`. -/
def shift (src dst k : Loc) : Loc := if src <+: k then dst ++ k.drop src.length else k

/-- The entries that were moved are those of before, shifted. -/
theorem support_move {src dst : Loc} (h : d.Free dst) (hsrc : src ≠ []) (hp : ¬ src <+: dst) :
    (d.move src dst).support = d.support.map (shift src dst) := by
  simp only [move, h, hsrc, hp, ne_eq, not_false_eq_true, and_self, dif_pos]
  rfl

/-- A map that takes nothing below `b` or away from there. -/
theorem filter_map_iff {f : Loc → Loc} (hf : ∀ k, b <+: f k ↔ b <+: k) (s : List Loc) :
    (s.map f).filter (b <+: ·) = (s.filter (b <+: ·)).map f := by
  rw [List.filter_map]
  congr 1
  exact List.filter_congr fun k _ => decide_eq_decide.mpr (hf k)

/-- The same move inside of the directory on both sides. -/
theorem Agree.move (h : Agree b d d') {src dst : Loc} (hsrcb : b <+: src) (hdstb : b <+: dst)
    (hfree : d.Free dst) (hfree' : d'.Free dst) (hsrc : src ≠ []) (hp : ¬ src <+: dst) :
    Agree b (d.move src dst) (d'.move src dst) where
  look k hk := by
    rw [look_move hfree hsrc hp, look_move hfree' hsrc hp, h.look k hk,
      h.look _ (hsrcb.trans (List.prefix_append src _))]
  support := by
    -- Both ends of the move are below `b`, so it takes no entry there or away.
    have hshift : ∀ k, b <+: shift src dst k ↔ b <+: k := by
      intro k
      unfold shift
      split
      · rename_i hk
        exact iff_of_true (hdstb.trans (List.prefix_append dst _)) (hsrcb.trans hk)
      · exact Iff.rfl
    rw [support_move hfree hsrc hp, support_move hfree' hsrc hp, filter_map_iff hshift,
      filter_map_iff hshift, h.support]
  above k hk hne := by
    have hdst : ¬ dst <+: k := fun hdk => ne_of_below (hdstb.trans hdk) hk hne rfl
    have hsrc' : ¬ src <+: k := fun hsk => ne_of_below (hsrcb.trans hsk) hk hne rfl
    unfold IsFile
    rw [move_node hfree hsrc hp, move_node hfree' hsrc hp, moved, moved, if_neg hdst, if_neg hdst,
      if_neg hsrc', if_neg hsrc']
    exact h.above k hk hne

/-- A file that was the same stays so, wherever the move has brought it. -/
theorem SameFile.move {i i' : Nat} (h : SameFile b d d' i i') {src dst : Loc} (hsrcb : b <+: src)
    (hfree : d.Free dst) (hfree' : d'.Free dst) (hsrc : src ≠ []) (hp : ¬ src <+: dst) :
    SameFile b (d.move src dst) (d'.move src dst) i i' := by
  intro k hk
  rw [move_node hfree hsrc hp, move_node hfree' hsrc hp, moved, moved]
  split
  · exact h _ (hsrcb.trans (List.prefix_append src _))
  · split
    · simp
    · exact h k hk

/-- Neither of the places is below the other. -/
def Apart (b l : Loc) : Prop := ¬ b <+: l ∧ ¬ l <+: b

/-- What is below a place that is apart is apart too. -/
theorem Apart.below {l k : Loc} (h : Apart b l) (hk : l <+: k) : Apart b k := by
  refine ⟨fun hb => ?_, fun hb => h.2 (hk.trans hb)⟩
  rcases List.prefix_or_prefix_of_prefix hb hk with hbl | hlb
  · exact h.1 hbl
  · exact h.2 hlb

/-- A move between places that are apart from the directory. -/
theorem Untouched.move {src dst : Loc} (hsrcb : Apart b src) (hdstb : Apart b dst) :
    Untouched b d (d.move src dst) := by
  by_cases h : d.Free dst ∧ src ≠ [] ∧ ¬ src <+: dst
  · obtain ⟨hfree, hsrc, hp⟩ := h
    have hnode : ∀ k, ¬ dst <+: k → ¬ src <+: k → (d.move src dst).node k = d.node k := by
      intro k hdk hsk
      rw [move_node hfree hsrc hp, moved, if_neg hdk, if_neg hsk]
    constructor
    case node =>
      intro k hk
      exact hnode k (fun hdk => (hdstb.below hdk).1 hk) fun hsk => (hsrcb.below hsk).1 hk
    case bytes => exact fun _ _ _ _ => by rw [move_content]
    case support =>
      -- A place moves out of `b` or into it only with a subtree that hangs below `b`.
      have hshift : ∀ k, b <+: shift src dst k ↔ b <+: k := by
        intro k
        unfold shift
        split
        · rename_i hk
          exact iff_of_false (hdstb.below (List.prefix_append dst _)).1 (hsrcb.below hk).1
        · exact Iff.rfl
      rw [support_move hfree hsrc hp, filter_map_iff hshift]
      conv_rhs => rw [← List.map_id (d.support.filter _)]
      refine List.map_congr_left fun k hk => if_neg fun hsk => (hsrcb.below hsk).1 ?_
      simpa using (List.mem_filter.mp hk).2
    case above =>
      intro k hk _
      unfold IsFile
      rw [hnode k (fun hdk => hdstb.2 (hdk.trans hk)) fun hsk => hsrcb.2 (hsk.trans hk)]
  · rw [show d.move src dst = d by simp only [Disk.move, dif_neg h]]
    exact .refl b d

/-! ### A file's bytes -/

/-- The same bytes go to the same file. -/
theorem Agree.appendTo (h : Agree b d d') {i i' : Nat} (hsame : SameFile b d d' i i')
    (bytes : Bytes) : Agree b (d.appendTo i bytes) (d'.appendTo i' bytes) where
  look k hk := by
    rcases hnode : d.node k with _ | _ | j
    · rw [(look_eq_none (d := d.appendTo i bytes)).mpr hnode, look_eq_none]
      exact (h.none_iff hk).mpr hnode
    · rw [(look_eq_dir (d := d.appendTo i bytes)).mpr hnode, look_eq_dir]
      exact (h.dir_iff hk).mpr hnode
    · obtain ⟨j', hj', hcontent, -⟩ := h.file hk hnode
      -- The bytes go to this file in both trees or in neither.
      have hiff : i' = j' ↔ i = j := by
        have hk' := hsame k hk
        rw [hj', hnode] at hk'
        simpa [eq_comm] using hk'
      rw [look_of_file (d := d.appendTo i bytes) hnode,
        look_of_file (d := d'.appendTo i' bytes) hj', appendTo_content, appendTo_content]
      by_cases hij : i = j
      · obtain rfl := hij
        obtain rfl := hiff.mpr rfl
        rw [Function.update_self, Function.update_self, hcontent]
      · rw [Function.update_of_ne (Ne.symm hij),
          Function.update_of_ne fun hij' => hij (hiff.mp hij'.symm), hcontent]
  support := h.support
  above := h.above

/-- Bytes that go to a file elsewhere. -/
theorem Untouched.appendTo {i : Nat} (h : ∀ l, b <+: l → d.node l ≠ some (.file i))
    (bytes : Bytes) : Untouched b d (d.appendTo i bytes) where
  node _ _ := rfl
  bytes l j hl hj := by
    rw [appendTo_content, Function.update_of_ne]
    rintro rfl
    exact h l hl hj
  support := rfl
  above _ _ _ := Iff.rfl

/-! ### Calls on paths below the place -/

/-- The text of a place is found when its parent is a directory. -/
theorem locate_toPath_eq (d : Disk) {l : Loc} (hl : l ≠ []) :
    d.locate (toPath l) = if d.node l.dropLast = some .dir then some l else none := by
  obtain ⟨l, n, rfl⟩ := l.eq_nil_or_concat'.resolve_left hl
  rw [List.dropLast_concat]
  split
  · rename_i hdir
    exact locate_toPath_of_dir hdir
  · rename_i hdir
    rw [Option.eq_none_iff_forall_ne_some]
    intro k hk
    unfold locate at hk
    rw [cString_toPath, if_neg (toPath_ne_nil _), steps_toPath hl, List.map_append,
      walk_append] at hk
    obtain ⟨m, hm, hstep⟩ := Option.bind_eq_some_iff.mp hk
    have hml := walk_eq_foldl hm
    rw [foldl_apply_down, List.nil_append] at hml
    subst hml
    simp only [List.map_singleton, walk] at hstep
    exact absurd hstep (by simp [hdir])

/-- A place below `b`, but not `b` itself: its parent is below `b` as well. -/
structure Under (b l : Loc) : Prop where
  ne_nil : l ≠ []
  parent : b <+: l.dropLast

/-- What lies under a directory is below it. -/
theorem Under.below {l : Loc} (h : Under b l) : b <+: l := h.parent.trans (List.dropLast_prefix l)

/-- Names behind the directory lead to a place under it. -/
theorem under_append (b : Loc) {ns : Loc} (hns : ns ≠ []) : Under b (b ++ ns) where
  ne_nil := by simp [hns]
  parent := by
    rw [List.dropLast_append_of_ne_nil hns]
    exact List.prefix_append b _

/-- A path into the directory resolves alike. -/
theorem Agree.locate (h : Agree b d d') {l : Loc} (hl : Under b l) :
    d'.locate (toPath l) = d.locate (toPath l) := by
  rw [locate_toPath_eq d hl.ne_nil, locate_toPath_eq d' hl.ne_nil]
  exact if_congr (h.dir_iff hl.parent) rfl rfl

/-- The same places in the directory are free for a new entry. -/
theorem Agree.free_iff (h : Agree b d d') {l : Loc} (hl : Under b l) : d'.Free l ↔ d.Free l := by
  unfold Free
  rw [h.none_iff hl.below, h.dir_iff hl.parent]

/-- A path into the directory is read alike. -/
theorem Agree.read (h : Agree b d d') {l : Loc} (hl : b <+: l) :
    d'.read (toPath l) = d.read (toPath l) := by
  unfold Disk.read
  rw [status_toPath, status_toPath]
  rcases hnode : d.node l with _ | _ | i
  · rw [(h.none_iff hl).mpr hnode]
  · rw [(h.dir_iff hl).mpr hnode]
  · obtain ⟨i', hi', hcontent, -⟩ := h.file hl hnode
    rw [hi']
    exact congrArg some hcontent

/-- A path into the directory is found empty alike. -/
theorem Agree.isEmpty (h : Agree b d d') {l : Loc} (hl : Under b l) :
    d'.isEmpty (toPath l) = d.isEmpty (toPath l) := by
  unfold Disk.isEmpty
  rw [h.locate hl]
  cases hlocate : d.locate (toPath l) with
  | none => rfl
  | some k =>
      obtain rfl := eq_of_locate_toPath hlocate
      dsimp only
      rcases hnode : d.node k with _ | _ | i
      · rw [(h.none_iff hl.below).mpr hnode]
      · rw [(h.dir_iff hl.below).mpr hnode]
        simp only [h.children_iff hl.below]
      · obtain ⟨i', hi', hcontent, -⟩ := h.file hl.below hnode
        rw [hi']
        simp only [hcontent]

/-- It does not matter whether duplicates or unwanted entries go first. -/
theorem dedup_filter (p : Loc → Bool) (s : List Loc) : (s.filter p).dedup = s.dedup.filter p := by
  induction s with
  | nil => rfl
  | cons k s ih =>
      by_cases hk : k ∈ s
      · rw [List.dedup_cons_of_mem hk, ← ih, List.filter_cons]
        split
        · rw [List.dedup_cons_of_mem (List.mem_filter.mpr ⟨hk, ‹_›⟩)]
        · rfl
      · rw [List.dedup_cons_of_notMem hk, List.filter_cons, List.filter_cons, ← ih]
        split
        · rw [List.dedup_cons_of_notMem fun hmem => hk (List.mem_filter.mp hmem).1]
        · rfl

/-- The entries below a place in the order in which the tree lists them. -/
theorem Agree.entriesBelow (h : Agree b d d') : d'.entriesBelow b = d.entriesBelow b := by
  have hlisted : ∀ d : Disk, d.entriesBelow b =
      (d.support.filter (b <+: ·)).dedup.filter (fun k => k ≠ b ∧ d.node k ≠ none) := by
    intro d
    rw [Disk.entriesBelow, dedup_filter, List.filter_filter]
    refine List.filter_congr fun k _ => ?_
    rw [Bool.and_comm, ← Bool.decide_and]
  rw [hlisted, hlisted, h.support]
  refine List.filter_congr fun k hk => ?_
  have hbelow : b <+: k := by
    simpa using (List.mem_filter.mp (List.mem_dedup.mp hk)).2
  simp only [ne_eq, h.none_iff hbelow]

/-- What a call leaves of two trees that agree: they agree, and an inode that was the same file in
both still is. -/
structure Parallel (b : Loc) (d d' e e' : Disk) : Prop where
  agree : Agree b e e'
  sameFile : ∀ i i', SameFile b d d' i i' → i < d.next → i' < d'.next → SameFile b e e' i i'

/-- Two disks that agree have gone through the same steps, none so far. -/
theorem Agree.parallel (h : Agree b d d') : Parallel b d d' d d' := ⟨h, fun _ _ hsame _ _ => hsame⟩

/-- Opening a path into the directory does the same on both sides and finds one file. -/
theorem Agree.openAppend (h : Agree b d d') {l : Loc} (hl : Under b l) :
    Parallel b d d' (d.openAppend (toPath l)).1 (d'.openAppend (toPath l)).1 ∧
      Option.Rel (SameFile b (d.openAppend (toPath l)).1 (d'.openAppend (toPath l)).1)
        (d.openAppend (toPath l)).2 (d'.openAppend (toPath l)).2 := by
  unfold Disk.openAppend
  rw [h.locate hl]
  cases hlocate : d.locate (toPath l) with
  | none => exact ⟨h.parallel, .none⟩
  | some k =>
      obtain rfl := eq_of_locate_toPath hlocate
      dsimp only
      rcases hnode : d.node k with _ | _ | i
      · -- A new file, under a new inode on each side.
        rw [(h.none_iff hl.below).mpr hnode]
        have hfree := locate_free hlocate hnode
        have hfree' := (h.free_iff hl).mpr hfree
        exact ⟨⟨h.addFile hl.below hfree hfree', fun i i' hsame hi hi' =>
          hsame.addFile hfree hfree' hi hi'⟩, .some (sameFile_new hfree hfree')⟩
      · rw [(h.dir_iff hl.below).mpr hnode]
        exact ⟨h.parallel, .none⟩
      · obtain ⟨i', hi', -, hsame⟩ := h.file hl.below hnode
        rw [hi']
        exact ⟨h.parallel, .some hsame⟩

/-- Removing a path into the directory does the same on both sides, with one result. -/
theorem Agree.remove (h : Agree b d d') {l : Loc} (hl : Under b l) :
    Parallel b d d' (d.remove (toPath l)).1 (d'.remove (toPath l)).1 ∧
      (d'.remove (toPath l)).2 = (d.remove (toPath l)).2 := by
  unfold Disk.remove
  rw [h.locate hl]
  cases hlocate : d.locate (toPath l) with
  | none => exact ⟨h.parallel, rfl⟩
  | some k =>
      obtain rfl := eq_of_locate_toPath hlocate
      dsimp only
      cases hnode : d.node k with
      | none =>
          rw [(h.none_iff hl.below).mpr hnode]
          exact ⟨h.parallel, rfl⟩
      | some v =>
          -- Something stands there in the other tree too.
          obtain ⟨v', hv'⟩ : ∃ v', d'.node k = some v' := by
            refine Option.ne_none_iff_exists'.mp fun hnone => ?_
            rw [(h.none_iff hl.below).mp hnone] at hnode
            exact absurd hnode (by simp)
          rw [hv']
          simp only [h.children_iff hl.below, ne_eq]
          split
          · exact ⟨h.parallel, rfl⟩
          · rename_i hgoes
            have hnone : d.children k = [] := by
              by_contra hsome
              exact hgoes (Or.inr (Or.inr hsome))
            exact ⟨⟨h.detach hl.below hl.ne_nil hnone, fun i i' hsame _ _ =>
              hsame.detach h hl.below hl.ne_nil hnone⟩, rfl⟩

/-- What stands at a place gives way in the one tree when it does in the other. -/
theorem Agree.replaceable (h : Agree b d d') {src dst : Loc} (hsrc : b <+: src) (hdst : b <+: dst)
    {v v' : Node} (hv : d.node src = some v) (hv' : d'.node src = some v') :
    d'.replaceable v' dst = d.replaceable v dst := by
  -- The two nodes are of one kind, and so are those that they would replace.
  have hkind : v' = .dir ↔ v = .dir := by
    have hiff := h.dir_iff hsrc
    rwa [hv, hv', Option.some.injEq, Option.some.injEq] at hiff
  unfold Disk.replaceable
  rcases hnode : d.node dst with _ | _ | i
  · rw [(h.none_iff hdst).mpr hnode]
  · rw [(h.dir_iff hdst).mpr hnode]
    cases v with
    | dir =>
        obtain rfl := hkind.mpr rfl
        simp only [h.children_iff hdst]
    | file j =>
        cases v' with
        | dir => exact absurd (hkind.mp rfl) (by simp)
        | file j' => rfl
  · obtain ⟨i', hi', -⟩ := h.file hdst hnode
    rw [hi']
    cases v with
    | dir =>
        obtain rfl := hkind.mpr rfl
        rfl
    | file j =>
        cases v' with
        | dir => exact absurd (hkind.mp rfl) (by simp)
        | file j' => rfl

/-- What gives way to a `rename` has nothing hanging in it. -/
theorem children_of_replaceable {v : Node} {l : Loc} (h : d.replaceable v l = true) :
    d.children l = [] := by
  unfold Disk.replaceable at h
  rcases hnode : d.node l with _ | _ | i
  · rw [children_eq_nil_iff]
    intro k hk hkl
    by_contra hsome
    rw [← hkl, d.parent_dir k hk hsome] at hnode
    exact absurd hnode (by simp)
  · rw [hnode] at h
    cases v with
    | dir => simpa using h
    | file j => exact absurd h (by simp)
  · exact children_file hnode

/-- Renaming inside of the directory does the same on both sides, with one result. -/
theorem Agree.rename (h : Agree b d d') {src dst : Loc} (hsrc : Under b src) (hdst : Under b dst) :
    Parallel b d d' (d.rename (toPath src) (toPath dst)).1 (d'.rename (toPath src) (toPath dst)).1 ∧
      (d'.rename (toPath src) (toPath dst)).2 = (d.rename (toPath src) (toPath dst)).2 := by
  unfold Disk.rename
  rw [h.locate hsrc, h.locate hdst]
  cases hlocate : d.locate (toPath src) with
  | none => exact ⟨h.parallel, rfl⟩
  | some k =>
      obtain rfl := eq_of_locate_toPath hlocate
      cases hlocate' : d.locate (toPath dst) with
      | none => exact ⟨h.parallel, rfl⟩
      | some l =>
          obtain rfl := eq_of_locate_toPath hlocate'
          dsimp only
          cases hnode : d.node k with
          | none =>
              rw [(h.none_iff hsrc.below).mpr hnode]
              exact ⟨h.parallel, rfl⟩
          | some v =>
              obtain ⟨v', hv'⟩ : ∃ v', d'.node k = some v' := by
                refine Option.ne_none_iff_exists'.mp fun hnone => ?_
                rw [(h.none_iff hsrc.below).mp hnone] at hnode
                exact absurd hnode (by simp)
              have hreplace := h.replaceable hsrc.below hdst.below hnode hv'
              rw [hv']
              simp only [hreplace]
              split
              · exact ⟨h.parallel, rfl⟩
              split
              · exact ⟨h.parallel, rfl⟩
              split
              · exact ⟨h.parallel, rfl⟩
              · rename_i hstay
                -- All tests are passed: what was at `dst` goes, and then `src` moves there.
                obtain ⟨hp, hgives⟩ : ¬ k <+: l ∧ d.replaceable v l = true := by
                  simpa only [not_or, Decidable.not_not] using hstay
                have hnone : d.children l = [] := children_of_replaceable hgives
                have hdetach := h.detach hdst.below hdst.ne_nil hnone
                have hfree : (d.detach l).Free l ↔ (d'.detach l).Free l :=
                  (hdetach.free_iff hdst).symm
                refine ⟨?_, rfl⟩
                by_cases hl : (d.detach l).Free l
                · exact ⟨hdetach.move hsrc.below hdst.below hl (hfree.mp hl) hsrc.ne_nil hp,
                    fun i i' hsame _ _ => (hsame.detach h hdst.below hdst.ne_nil hnone).move
                      hsrc.below hl (hfree.mp hl) hsrc.ne_nil hp⟩
                · have hl' := mt hfree.mpr hl
                  simp only [Disk.move, hl, hl', false_and, dif_neg, not_false_eq_true]
                  exact ⟨hdetach, fun i i' hsame _ _ => hsame.detach h hdst.below hdst.ne_nil hnone⟩

/-- One step down a path: the directory is there, or it is made. -/
theorem makeDirs_down {l : Loc} {n : Name} {ss : List Step} (hl : d.node l = some .dir)
    (hfile : ¬ d.IsFile (l ++ [n])) :
    ∃ e, d.makeDirs l (.down n :: ss) = e.makeDirs (l ++ [n]) ss ∧ e.node (l ++ [n]) = some .dir ∧
      (e = d ∨ (d.node (l ++ [n]) = none ∧ e = d.addDir (l ++ [n]))) := by
  simp only [makeDirs]
  rcases hnode : d.node (l ++ [n]) with _ | _ | i
  · have hfree : d.Free (l ++ [n]) := ⟨by simp, hnode, by simpa using hl⟩
    refine ⟨_, rfl, ?_, Or.inr ⟨rfl, rfl⟩⟩
    rw [addDir_node hfree, Function.update_self]
  · exact ⟨d, rfl, hnode, Or.inl rfl⟩
  · exact absurd ⟨i, hnode⟩ hfile

/-- A file on the way ends the making of directories. -/
theorem makeDirs_file {l : Loc} {n : Name} {ss : List Step} (hfile : d.IsFile (l ++ [n])) :
    d.makeDirs l (.down n :: ss) = (d, false) := by
  obtain ⟨i, hi⟩ := hfile
  simp only [makeDirs, hi]

/-- The directories on the way to a place below `b`. Induction on the way down: above `b` the two
trees may differ in which directories are there, but not in which places are files. -/
theorem Agree.makeDirs (h : Agree b d d') {l rest : Loc} (hb : b <+: l ++ rest)
    (hl : d.node l = some .dir) (hl' : d'.node l = some .dir) :
    Agree b (d.makeDirs l (rest.map .down)).1 (d'.makeDirs l (rest.map .down)).1 ∧
      (d'.makeDirs l (rest.map .down)).2 = (d.makeDirs l (rest.map .down)).2 := by
  induction rest generalizing d d' l with
  | nil => exact ⟨h, rfl⟩
  | cons n rest ih =>
      have hb' : b <+: (l ++ [n]) ++ rest := by simpa using hb
      rw [List.map_cons]
      have hfile : d'.IsFile (l ++ [n]) ↔ d.IsFile (l ++ [n]) := by
        by_cases hbelow : b <+: l ++ [n]
        · constructor
          · rintro ⟨i, hi⟩
            obtain ⟨j, hj, -⟩ := h.symm.file hbelow hi
            exact ⟨j, hj⟩
          · rintro ⟨i, hi⟩
            obtain ⟨j, hj, -⟩ := h.file hbelow hi
            exact ⟨j, hj⟩
        · have habove : l ++ [n] <+: b :=
            (List.prefix_or_prefix_of_prefix hb' (List.prefix_append _ _)).resolve_left hbelow
          exact h.above _ habove fun heq => hbelow (heq ▸ List.prefix_refl _)
      by_cases hd : d.IsFile (l ++ [n])
      · rw [makeDirs_file hd, makeDirs_file (hfile.mpr hd)]
        exact ⟨h, rfl⟩
      · obtain ⟨e, he, hedir, hcases⟩ := @makeDirs_down d l n (rest.map .down) hl hd
        obtain ⟨e', he', hedir', hcases'⟩ :=
          @makeDirs_down d' l n (rest.map .down) hl' (mt hfile.mp hd)
        rw [he, he']
        refine ih ?_ hb' hedir hedir'
        have hfree : d.node (l ++ [n]) = none → d.Free (l ++ [n]) := fun hnone =>
          ⟨by simp, hnone, by simpa using hl⟩
        have hfree' : d'.node (l ++ [n]) = none → d'.Free (l ++ [n]) := fun hnone =>
          ⟨by simp, hnone, by simpa using hl'⟩
        by_cases hbelow : b <+: l ++ [n]
        · -- Below `b` the directory is new in both trees or in neither.
          rcases hcases with rfl | ⟨hnone, rfl⟩
          · rcases hcases' with rfl | ⟨hnone', -⟩
            · exact h
            · rw [(h.none_iff hbelow).mp hnone'] at hedir
              exact absurd hedir (by simp)
          · rcases hcases' with rfl | ⟨hnone', rfl⟩
            · rw [(h.none_iff hbelow).mpr hnone] at hedir'
              exact absurd hedir' (by simp)
            · exact h.addDir (hfree hnone) (hfree' hnone')
        · -- Above `b` nobody below it sees a new directory.
          have hseen : ∀ {d e : Disk},
              (e = d ∨ (d.node (l ++ [n]) = none ∧ e = d.addDir (l ++ [n]))) →
              Untouched b d e := by
            rintro d e (rfl | ⟨-, rfl⟩)
            · exact .refl b _
            · exact .addDir hbelow
          exact ((hseen hcases).agree h).trans (hseen hcases').agree_self

/-- Making directories inside of the directory does the same on both sides, with one result. -/
theorem Agree.createDirectories (h : Agree b d d') {l : Loc} (hne : l ≠ []) (hl : b <+: l) :
    Parallel b d d' (d.createDirectories (toPath l)).1 (d'.createDirectories (toPath l)).1 ∧
      (d'.createDirectories (toPath l)).2 = (d.createDirectories (toPath l)).2 := by
  have hmake := @Agree.makeDirs b d d' h [] l (by simpa using hl) d.root_dir d'.root_dir
  have heq : ∀ d : Disk, d.createDirectories (toPath l) = d.makeDirs [] (l.map .down) := by
    intro d
    rw [Disk.createDirectories, cString_toPath, if_neg (toPath_ne_nil l), steps_toPath hne]
  -- The call adds directories only, so every file stays where it is.
  have hfiles : ∀ (d : Disk) (k : Loc) (i : Nat),
      (d.createDirectories (toPath l)).1.node k = some (.file i) ↔ d.node k = some (.file i) := by
    intro d k i
    rcases d.createDirectories_node (toPath l) k with hsame | ⟨hnone, hdir⟩
    · rw [hsame]
    · rw [hdir, hnone]
      simp
  refine ⟨⟨?_, fun i i' hsame _ _ k hk => ?_⟩, ?_⟩
  · rw [heq, heq]
    exact hmake.1
  · rw [hfiles, hfiles]
    exact hsame k hk
  · rw [heq, heq]
    exact hmake.2

/-! ### Calls on paths elsewhere -/

/-- Directories that are made on the way to a place outside. -/
theorem Untouched.makeDirs {l rest : Loc} (hb : ¬ b <+: l ++ rest) :
    Untouched b d (d.makeDirs l (rest.map .down)).1 := by
  induction rest generalizing d l with
  | nil => exact .refl b d
  | cons n rest ih =>
      have hb' : ¬ b <+: (l ++ [n]) ++ rest := by simpa using hb
      simp only [List.map_cons, Disk.makeDirs]
      split
      · exact ih hb'
      · exact .refl b d
      · exact (Untouched.addDir fun h => hb' (h.trans (List.prefix_append _ _))).trans (ih hb')

/-- `create_directories` of a path that leads to a place outside. -/
theorem Untouched.createDirectories {l : Loc} (hne : l ≠ []) (hl : ¬ b <+: l) :
    Untouched b d (d.createDirectories (toPath l)).1 := by
  rw [Disk.createDirectories, cString_toPath, if_neg (toPath_ne_nil l), steps_toPath hne]
  exact .makeDirs (by simpa using hl)

/-- Opening a path that is apart from the directory. -/
theorem Untouched.openAppend {l : Loc} (hl : Apart b l) :
    Untouched b d (d.openAppend (toPath l)).1 := by
  rcases d.openAppend_cases (toPath l) with h | ⟨k, i, -, -, h⟩ | ⟨k, hk, hfree, h⟩
  · rw [h]
    exact .refl b d
  · rw [h]
    exact .refl b d
  · obtain rfl := eq_of_locate_toPath hk
    rw [h]
    exact .addFile hfree hl.1 hl.2

/-- Removing a path that is apart from the directory. -/
theorem Untouched.remove {l : Loc} (hl : Apart b l) : Untouched b d (d.remove (toPath l)).1 := by
  rcases d.remove_cases (toPath l) with h | ⟨k, hk, -, -, -, h⟩
  · rw [h]
    exact .refl b d
  · obtain rfl := eq_of_locate_toPath hk
    rw [h]
    exact .detach hl.1 hl.2

/-- Renaming between paths that are apart from the directory. -/
theorem Untouched.rename {src dst : Loc} (hsrc : Apart b src) (hdst : Apart b dst) :
    Untouched b d (d.rename (toPath src) (toPath dst)).1 := by
  rcases d.rename_cases (toPath src) (toPath dst) with h | ⟨k, l, v, hk, hl, -, -, -, -, h⟩
  · rw [h]
    exact .refl b d
  · obtain rfl := eq_of_locate_toPath hk
    obtain rfl := eq_of_locate_toPath hl
    rw [h]
    exact (Untouched.detach hdst.1 hdst.2).trans (.move hsrc hdst)

/-! ### Where files come to stand -/

/-- A file that did not stand there before stands below `b`, and it is new or stood below `b`. -/
def FilesWithin (b : Loc) (d e : Disk) : Prop :=
  ∀ l i, e.node l = some (.file i) → d.node l = some (.file i) ∨
    (b <+: l ∧ (i = d.next ∨ ∃ k, b <+: k ∧ d.node k = some (.file i)))

/-- Where no file came in, all new files are within any directory. -/
theorem FilesWithin.of_subset (h : ∀ l i, e.node l = some (.file i) → d.node l = some (.file i)) :
    FilesWithin b d e := fun l i hi => Or.inl (h l i hi)

/-- Making directories brings no file. -/
theorem filesWithin_createDirectories (b : Loc) (d : Disk) (p : Path) :
    FilesWithin b d (d.createDirectories p).1 := by
  refine .of_subset fun l i hi => ?_
  rcases d.createDirectories_node p l with h | ⟨-, h⟩
  · exact h.symm.trans hi
  · rw [h] at hi
    exact absurd hi (by simp)

/-- Opening a path below the directory brings a file within it at most. -/
theorem filesWithin_openAppend {l : Loc} (hl : b <+: l) :
    FilesWithin b d (d.openAppend (toPath l)).1 := by
  rcases d.openAppend_cases (toPath l) with h | ⟨k, i, -, -, h⟩ | ⟨k, hk, hfree, h⟩
  · rw [h]
    exact .of_subset fun _ _ hi => hi
  · rw [h]
    exact .of_subset fun _ _ hi => hi
  · obtain rfl := eq_of_locate_toPath hk
    rw [h]
    intro m i hi
    rcases (addFile_file hfree m i).mp hi with ⟨rfl, rfl⟩ | hold
    · exact Or.inr ⟨hl, Or.inl rfl⟩
    · exact Or.inl hold

/-- Detaching adds no entry. -/
theorem detach_subset {l k : Loc} {v : Node} (h : (d.detach l).node k = some v) :
    d.node k = some v := by
  unfold detach at h
  split at h
  · by_cases hkl : k = l
    · subst hkl
      simp at h
    · simpa only [Function.update_of_ne hkl] using h
  · exact h

/-- A removal brings no file. -/
theorem filesWithin_remove (b : Loc) (d : Disk) (p : Path) : FilesWithin b d (d.remove p).1 := by
  rcases d.remove_cases p with h | ⟨k, -, -, -, -, h⟩
  · rw [h]
    exact .of_subset fun _ _ hi => hi
  · rw [h]
    exact .of_subset fun _ _ hi => detach_subset hi

/-- A renaming inside of the directory brings files within it at most. -/
theorem filesWithin_rename {src dst : Loc} (hsrc : b <+: src) (hdst : b <+: dst) :
    FilesWithin b d (d.rename (toPath src) (toPath dst)).1 := by
  rcases d.rename_cases (toPath src) (toPath dst) with h | ⟨k, l, v, hk, hl, -, -, -, -, h⟩
  · rw [h]
    exact .of_subset fun _ _ hi => hi
  · obtain rfl := eq_of_locate_toPath hk
    obtain rfl := eq_of_locate_toPath hl
    rw [h]
    intro m i hi
    dsimp only at hi
    unfold move at hi
    split at hi
    · rcases moved_eq_some hi with ⟨hlm, hold⟩ | ⟨-, -, hold⟩
      · exact Or.inr ⟨hdst.trans hlm, Or.inr ⟨_, hsrc.trans (List.prefix_append k _),
          detach_subset hold⟩⟩
      · exact Or.inl (detach_subset hold)
    · exact Or.inl (detach_subset hi)

end Disk

end RemoteBackup.Lib
