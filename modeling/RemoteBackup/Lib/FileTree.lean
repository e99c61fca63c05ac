import RemoteBackup.Lib.PathText
import Mathlib.Logic.Function.Basic
import Mathlib.Data.List.Dedup

/-!
# `RemoteBackup.Lib.FileTree`: a file system without links

A `Disk` is a tree of directories and regular files. A file is known by its inode, so that
an open descriptor keeps writing to the same file when its name goes. The fields carry the
invariant: every entry hangs in a directory, two names never share an inode, and a new file
gets an inode that no name has.

The primitives change one entry (`addDir`, `addFile`, `detach`, `move`) or one file's bytes
(`appendTo`). Over them stand the calls that take a path: `createDirectories`,
`openAppend`, `remove`, `rename`, `isEmpty`, `read`. Each call has one lemma that says
everything it can do (`createDirectories_node`, `openAppend_cases`, `remove_cases`,
`rename_cases`), and nothing later unfolds a call.

Symbolic links, permissions and quotas are not part of the tree.
-/

set_option autoImplicit false

namespace RemoteBackup.Lib

/-- What a name stands for. -/
inductive Node where
  | dir
  | file (inode : Nat)
  deriving DecidableEq

/-- A tree of directories and regular files. `support` lists every place that has an entry
and perhaps some that had one. -/
structure Disk where
  node : Loc → Option Node
  support : List Loc
  content : Nat → Bytes
  next : Nat
  root_dir : node [] = some .dir
  parent_dir : ∀ l, l ≠ [] → node l ≠ none → node l.dropLast = some .dir
  no_links : ∀ l k i, node l = some (.file i) → node k = some (.file i) → l = k
  fresh : ∀ l i, node l = some (.file i) → i < next
  listed : ∀ l, node l ≠ none → l ∈ support

namespace Disk

/-- The tree that has only its root. -/
def empty : Disk where
  node := fun l => if l = [] then some .dir else none
  support := [[]]
  content := fun _ => []
  next := 0
  root_dir := rfl
  parent_dir := by
    intro l hl h
    simp [hl] at h
  no_links := by
    intro l k i h
    split at h <;> exact absurd h (by simp)
  fresh := by
    intro l i h
    split at h <;> exact absurd h (by simp)
  listed := by
    intro l h
    by_cases hl : l = []
    · simp [hl]
    · simp [hl] at h

/-! ### Changing one entry -/

/-- Only the root is its own parent. -/
theorem dropLast_ne_self {l : Loc} (hl : l ≠ []) : l.dropLast ≠ l := by
  intro h
  have hlen := congrArg List.length h
  have hpos := List.length_pos_iff.mpr hl
  rw [List.length_dropLast] at hlen
  omega

/-- A place where a new entry can hang: nothing is there, and its parent is a
directory. -/
def Free (d : Disk) (l : Loc) : Prop :=
  l ≠ [] ∧ d.node l = none ∧ d.node l.dropLast = some .dir

/-- A place is free or not, and one look at the tree tells. -/
instance (d : Disk) (l : Loc) : Decidable (d.Free l) := by unfold Free; infer_instance

/-- An entry at a free place keeps every entry in a directory. -/
theorem parent_dir_update (d : Disk) {l : Loc} (h : d.Free l) (v : Node) (k : Loc)
    (hk : k ≠ []) (hnode : Function.update d.node l (some v) k ≠ none) :
    Function.update d.node l (some v) k.dropLast = some .dir := by
  obtain ⟨hl, hnone, hdir⟩ := h
  by_cases hkl : k = l
  · subst hkl
    rw [Function.update_of_ne (dropLast_ne_self hk), hdir]
  · rw [Function.update_of_ne hkl] at hnode
    have hpar := d.parent_dir k hk hnode
    have hne : k.dropLast ≠ l := by
      rintro rfl
      rw [hnone] at hpar
      exact absurd hpar (by simp)
    rw [Function.update_of_ne hne, hpar]

/-- The list of entries covers a new one put in front. -/
theorem listed_update (d : Disk) (l : Loc) (v : Node) (k : Loc)
    (h : Function.update d.node l (some v) k ≠ none) : k ∈ l :: d.support := by
  by_cases hkl : k = l
  · simp [hkl]
  · rw [Function.update_of_ne hkl] at h
    exact List.mem_cons_of_mem _ (d.listed k h)

/-- A new directory at a free place. -/
def addDir (d : Disk) (l : Loc) : Disk :=
  if h : d.Free l then
    { d with
      node := Function.update d.node l (some .dir)
      support := l :: d.support
      root_dir := by rw [Function.update_of_ne (Ne.symm h.1), d.root_dir]
      parent_dir := d.parent_dir_update h .dir
      no_links := by
        intro k m i hk hm
        have hne : ∀ k, Function.update d.node l (some .dir) k = some (.file i) → k ≠ l := by
          rintro k hk rfl
          rw [Function.update_self] at hk
          exact absurd hk (by simp)
        rw [Function.update_of_ne (hne k hk)] at hk
        rw [Function.update_of_ne (hne m hm)] at hm
        exact d.no_links k m i hk hm
      fresh := by
        intro k i hk
        by_cases hkl : k = l
        · subst hkl
          rw [Function.update_self] at hk
          exact absurd hk (by simp)
        · rw [Function.update_of_ne hkl] at hk
          exact d.fresh k i hk
      listed := d.listed_update l .dir }
  else d

/-- A new empty file at a free place. -/
def addFile (d : Disk) (l : Loc) : Disk :=
  if h : d.Free l then
    { node := Function.update d.node l (some (.file d.next))
      support := l :: d.support
      content := Function.update d.content d.next []
      next := d.next + 1
      root_dir := by rw [Function.update_of_ne (Ne.symm h.1), d.root_dir]
      parent_dir := d.parent_dir_update h (.file d.next)
      no_links := by
        intro k m i hk hm
        -- An old file's inode is below `next`, so only `l` has the new one.
        by_cases hkl : k = l <;> by_cases hml : m = l
        · rw [hkl, hml]
        · subst hkl
          rw [Function.update_self] at hk
          rw [Function.update_of_ne hml] at hm
          have hlt := d.fresh m i hm
          cases hk
          omega
        · subst hml
          rw [Function.update_self] at hm
          rw [Function.update_of_ne hkl] at hk
          have hlt := d.fresh k i hk
          cases hm
          omega
        · rw [Function.update_of_ne hkl] at hk
          rw [Function.update_of_ne hml] at hm
          exact d.no_links k m i hk hm
      fresh := by
        intro k i hk
        by_cases hkl : k = l
        · subst hkl
          rw [Function.update_self] at hk
          cases hk
          omega
        · rw [Function.update_of_ne hkl] at hk
          have hlt := d.fresh k i hk
          omega
      listed := d.listed_update l (.file d.next) }
  else d

/-- The entries of the directory at `l`. -/
def children (d : Disk) (l : Loc) : List Loc :=
  d.support.filter (fun k => k ≠ [] ∧ k.dropLast = l ∧ d.node k ≠ none)

/-- A location has no children when no entry has it as its parent. -/
theorem children_eq_nil_iff (d : Disk) (l : Loc) :
    d.children l = [] ↔ ∀ k, k ≠ [] → k.dropLast = l → d.node k = none := by
  unfold children
  rw [List.filter_eq_nil_iff]
  constructor
  · intro h k hk hkl
    by_contra hnode
    exact h k (d.listed k hnode) (by simp [hk, hkl, hnode])
  · intro h k _ hk
    simp only [decide_eq_true_eq] at hk
    exact hk.2.2 (h k hk.1 hk.2.1)

/-- Remove the entry at `l` when nothing hangs in it. -/
def detach (d : Disk) (l : Loc) : Disk :=
  if h : l ≠ [] ∧ d.children l = [] then
    { d with
      node := Function.update d.node l none
      root_dir := by rw [Function.update_of_ne (Ne.symm h.1), d.root_dir]
      parent_dir := by
        intro k hk hnode
        -- An entry that is left does not hang in `l`, which had no children.
        have hkl : k ≠ l := by
          rintro rfl
          rw [Function.update_self] at hnode
          exact hnode rfl
        rw [Function.update_of_ne hkl] at hnode
        have hne : k.dropLast ≠ l := fun hpar =>
          hnode ((d.children_eq_nil_iff l).mp h.2 k hk hpar)
        rw [Function.update_of_ne hne]
        exact d.parent_dir k hk hnode
      no_links := by
        intro k m i hk hm
        have hne : ∀ k, Function.update d.node l none k = some (.file i) → k ≠ l := by
          rintro k hk rfl
          rw [Function.update_self] at hk
          exact absurd hk (by simp)
        rw [Function.update_of_ne (hne k hk)] at hk
        rw [Function.update_of_ne (hne m hm)] at hm
        exact d.no_links k m i hk hm
      fresh := by
        intro k i hk
        by_cases hkl : k = l
        · subst hkl
          rw [Function.update_self] at hk
          exact absurd hk (by simp)
        · rw [Function.update_of_ne hkl] at hk
          exact d.fresh k i hk
      listed := by
        intro k hk
        by_cases hkl : k = l
        · subst hkl
          rw [Function.update_self] at hk
          exact absurd rfl hk
        · rw [Function.update_of_ne hkl] at hk
          exact d.listed k hk }
  else d

/-- Bytes written at the end of a file. -/
def appendTo (d : Disk) (i : Nat) (bs : Bytes) : Disk :=
  { d with content := Function.update d.content i (d.content i ++ bs) }

/-- Appending to a file moves no entry. -/
@[simp] theorem appendTo_node (d : Disk) (i : Nat) (bs : Bytes) :
    (d.appendTo i bs).node = d.node := rfl

/-- Appending to a file takes no inode. -/
@[simp] theorem appendTo_next (d : Disk) (i : Nat) (bs : Bytes) :
    (d.appendTo i bs).next = d.next := rfl

/-- Only the file that is appended to changes. -/
@[simp] theorem appendTo_content (d : Disk) (i : Nat) (bs : Bytes) :
    (d.appendTo i bs).content = Function.update d.content i (d.content i ++ bs) := rfl

/-- The directory stands at its place. -/
theorem addDir_node {d : Disk} {l : Loc} (h : d.Free l) :
    (d.addDir l).node = Function.update d.node l (some .dir) := by simp [addDir, h]

/-- A new directory changes no file. -/
@[simp] theorem addDir_content (d : Disk) (l : Loc) : (d.addDir l).content = d.content := by
  unfold addDir; split <;> rfl

/-- A new directory takes no inode. -/
@[simp] theorem addDir_next (d : Disk) (l : Loc) : (d.addDir l).next = d.next := by
  unfold addDir; split <;> rfl

/-- The file stands at its place, with the next inode. -/
theorem addFile_node {d : Disk} {l : Loc} (h : d.Free l) :
    (d.addFile l).node = Function.update d.node l (some (.file d.next)) := by simp [addFile, h]

/-- The new file is empty. -/
theorem addFile_content {d : Disk} {l : Loc} (h : d.Free l) :
    (d.addFile l).content = Function.update d.content d.next [] := by simp [addFile, h]

/-- A new file takes one inode. -/
theorem addFile_next {d : Disk} {l : Loc} (h : d.Free l) :
    (d.addFile l).next = d.next + 1 := by simp [addFile, h]

/-- The place of an entry without children is empty afterwards. -/
theorem detach_node {d : Disk} {l : Loc} (hl : l ≠ []) (h : d.children l = []) :
    (d.detach l).node = Function.update d.node l none := by simp [detach, h, hl]

/-- An inode keeps its bytes when its entry goes. -/
@[simp] theorem detach_content (d : Disk) (l : Loc) : (d.detach l).content = d.content := by
  unfold detach; split <;> rfl

/-- A detached inode is not used again. -/
@[simp] theorem detach_next (d : Disk) (l : Loc) : (d.detach l).next = d.next := by
  unfold detach; split <;> rfl

/-- A file is not the root. -/
theorem ne_nil_of_file {d : Disk} {l : Loc} {i : Nat} (h : d.node l = some (.file i)) :
    l ≠ [] := by
  rintro rfl
  rw [d.root_dir] at h
  exact absurd h (by simp)

/-- Nothing hangs in a file. -/
theorem children_file {d : Disk} {l : Loc} {i : Nat} (h : d.node l = some (.file i)) :
    d.children l = [] := by
  rw [children_eq_nil_iff]
  intro k hk hkl
  by_contra hnode
  have hpar := d.parent_dir k hk hnode
  rw [hkl, h] at hpar
  exact absurd hpar (by simp)

/-- A proper prefix of an existing place is a directory. -/
theorem dir_of_prefix (d : Disk) {k l : Loc} (hkl : k <+: l) (hne : k ≠ l)
    (hl : d.node l ≠ none) : d.node k = some .dir := by
  induction l using List.reverseRecOn with
  | nil => exact absurd (List.prefix_nil.mp hkl) hne
  | append_singleton l n ih =>
      have hpar := d.parent_dir (l ++ [n]) (by simp) hl
      rw [List.dropLast_concat] at hpar
      have hkl' : k <+: l := by
        rcases List.prefix_concat_iff.mp hkl with h | h
        · exact absurd h hne
        · exact h
      by_cases hk : k = l
      · rw [hk, hpar]
      · exact ih hkl' hk (by rw [hpar]; simp)

/-! ### Moving a subtree -/

/-- The entries after `src` and everything under it went to `dst`. -/
def moved (node : Loc → Option Node) (src dst : Loc) (l : Loc) : Option Node :=
  if dst <+: l then node (src ++ l.drop dst.length)
  else if src <+: l then none
  else node l

/-- An entry after the move was an entry before: the one that went to its place, or
itself. -/
theorem moved_eq_some {node : Loc → Option Node} {src dst l : Loc} {v : Node}
    (h : moved node src dst l = some v) :
    (dst <+: l ∧ node (src ++ l.drop dst.length) = some v) ∨
      (¬ dst <+: l ∧ ¬ src <+: l ∧ node l = some v) := by
  unfold moved at h
  split at h
  · exact Or.inl ⟨‹_›, h⟩
  · split at h
    · exact absurd h (by simp)
    · exact Or.inr ⟨‹_›, ‹_›, h⟩

/-- Move the entry at `src`, with all that hangs in it, to the free place `dst`. -/
def move (d : Disk) (src dst : Loc) : Disk :=
  if h : d.Free dst ∧ src ≠ [] ∧ ¬ src <+: dst then
    { d with
      node := moved d.node src dst
      support := d.support.map (fun k => if src <+: k then dst ++ k.drop src.length else k)
      root_dir := by
        have hdst : ¬ dst <+: [] := fun hp => h.1.1 (List.prefix_nil.mp hp)
        have hsrc : ¬ src <+: [] := fun hp => h.2.1 (List.prefix_nil.mp hp)
        rw [moved, if_neg hdst, if_neg hsrc, d.root_dir]
      parent_dir := by
        intro k hk hnode
        by_cases hdk : dst <+: k
        · obtain ⟨t, rfl⟩ := hdk
          by_cases ht : t = []
          · -- `k` is `dst` itself, whose parent stays where it was.
            subst ht
            rw [List.append_nil]
            have hdst : ¬ dst <+: dst.dropLast := by
              intro hp
              have hlen := hp.length_le
              have hpos := List.length_pos_iff.mpr h.1.1
              rw [List.length_dropLast] at hlen
              omega
            have hsrc : ¬ src <+: dst.dropLast :=
              fun hp => h.2.2 (hp.trans (List.dropLast_prefix dst))
            rw [moved, if_neg hdst, if_neg hsrc, h.1.2.2]
          · -- Below `dst` the parent has moved along.
            rw [moved, if_pos (List.prefix_append _ _), List.drop_left] at hnode
            have hpar := d.parent_dir (src ++ t) (by simp [ht]) hnode
            rw [List.dropLast_append_of_ne_nil ht] at hpar ⊢
            rw [moved, if_pos (List.prefix_append _ _), List.drop_left, hpar]
        · -- Elsewhere neither the entry nor its parent has moved.
          have hsk : ¬ src <+: k := by
            intro hp
            rw [moved, if_neg hdk, if_pos hp] at hnode
            exact hnode rfl
          rw [moved, if_neg hdk, if_neg hsk] at hnode
          have hdk' : ¬ dst <+: k.dropLast := fun hp => hdk (hp.trans (List.dropLast_prefix k))
          have hsk' : ¬ src <+: k.dropLast := fun hp => hsk (hp.trans (List.dropLast_prefix k))
          rw [moved, if_neg hdk', if_neg hsk']
          exact d.parent_dir k hk hnode
      no_links := by
        intro k m i hk hm
        -- Both places had the inode before: two that moved, one of them, or none.
        rcases moved_eq_some hk with ⟨hdk, hk⟩ | ⟨_, hsk, hk⟩ <;>
          rcases moved_eq_some hm with ⟨hdm, hm⟩ | ⟨_, hsm, hm⟩
        · have heq := List.append_cancel_left (d.no_links _ _ i hk hm)
          rw [← List.prefix_iff_eq_append.mp hdk, ← List.prefix_iff_eq_append.mp hdm, heq]
        · exact absurd (d.no_links _ _ i hk hm ▸ List.prefix_append _ _) hsm
        · exact absurd ((d.no_links _ _ i hm hk) ▸ List.prefix_append _ _) hsk
        · exact d.no_links k m i hk hm
      fresh := by
        intro k i hk
        rcases moved_eq_some hk with ⟨_, hk⟩ | ⟨_, _, hk⟩ <;> exact d.fresh _ i hk
      listed := by
        intro k hk
        obtain ⟨v, hv⟩ := Option.ne_none_iff_exists'.mp hk
        rw [List.mem_map]
        rcases moved_eq_some hv with ⟨hdk, hv⟩ | ⟨_, hsk, hv⟩
        · refine ⟨_, d.listed _ (by rw [hv]; simp), ?_⟩
          rw [if_pos (List.prefix_append _ _), List.drop_left, List.prefix_iff_eq_append.mp hdk]
        · exact ⟨k, d.listed k (by rw [hv]; simp), if_neg hsk⟩ }
  else d

/-- What stood below `src` stands below `dst`. -/
theorem move_node {d : Disk} {src dst : Loc} (h : d.Free dst) (hsrc : src ≠ [])
    (hp : ¬ src <+: dst) : (d.move src dst).node = moved d.node src dst := by
  simp [move, h, hsrc, hp]

/-- A move changes no file. -/
@[simp] theorem move_content (d : Disk) (src dst : Loc) :
    (d.move src dst).content = d.content := by
  unfold move; split <;> rfl

/-- A move takes no inode. -/
@[simp] theorem move_next (d : Disk) (src dst : Loc) : (d.move src dst).next = d.next := by
  unfold move; split <;> rfl

/-! ### Calls that take a path -/

/-- Follow steps from a directory. Every place that a step leaves must be a directory. -/
def walk (d : Disk) : Loc → List Step → Option Loc
  | l, [] => some l
  | l, s :: ss => if d.node l = some .dir then d.walk (s.apply l) ss else none

/-- The place that a system call finds for a path. The last entry may be missing. -/
def locate (d : Disk) (p : Path) : Option Loc :=
  if cString p = [] then none else d.walk [] (steps p)

/-- What a path names, if anything (`status`). -/
def status (d : Disk) (p : Path) : Option Node := (d.locate p).bind d.node

/-- Go down the steps and make the directories that are missing. -/
def makeDirs (d : Disk) (l : Loc) : List Step → Disk × Bool
  | [] => (d, true)
  | .stay :: ss => d.makeDirs l ss
  | .up :: ss => d.makeDirs l.dropLast ss
  | .down n :: ss =>
      match d.node (l ++ [n]) with
      | some .dir => d.makeDirs (l ++ [n]) ss
      | some (.file _) => (d, false)
      | none => (d.addDir (l ++ [n])).makeDirs (l ++ [n]) ss

/-- `create_directories`: the flag is false when the call reports an error. -/
def createDirectories (d : Disk) (p : Path) : Disk × Bool :=
  if cString p = [] then (d, false) else d.makeDirs [] (steps p)

/-- Open a file for appending and make it when it is missing. The result is the inode, or
nothing when the open fails. -/
def openAppend (d : Disk) (p : Path) : Disk × Option Nat :=
  match d.locate p with
  | none => (d, none)
  | some l =>
      match d.node l with
      | some .dir => (d, none)
      | some (.file i) => (d, some i)
      | none => (d.addFile l, some d.next)

/-- A path whose last component is `.` or `..`, or the root: no call removes or renames
it. -/
def endsInDots (p : Path) : Bool :=
  match (components (cString p)).getLast? with
  | none => true
  | some c => c = [dot] ∨ c = [dot, dot]

/-- `remove`: a file or an empty directory goes. A missing one is no error. -/
def remove (d : Disk) (p : Path) : Disk × Bool :=
  match d.locate p with
  | none => (d, true)
  | some l =>
      match d.node l with
      | none => (d, true)
      | some _ =>
          if endsInDots p ∨ l = [] ∨ d.children l ≠ [] then (d, false) else (d.detach l, true)

/-- What stands at `dst` gives way to a `rename`: a file to a file, an empty directory to a
directory. -/
def replaceable (d : Disk) (v : Node) (dst : Loc) : Bool :=
  match v, d.node dst with
  | _, none => true
  | .file _, some (.file _) => true
  | .dir, some .dir => d.children dst = []
  | _, _ => false

/-- `rename`. -/
def rename (d : Disk) (p q : Path) : Disk × Bool :=
  match d.locate p, d.locate q with
  | some src, some dst =>
      match d.node src with
      | none => (d, false)
      | some v =>
          if endsInDots p ∨ endsInDots q then (d, false)
          else if src = dst then (d, true)
          else if src <+: dst ∨ ¬ d.replaceable v dst then (d, false)
          else ((d.detach dst).move src dst, true)
  | _, _ => (d, false)

/-- `is_empty`: nothing when the path names nothing. A file counts as empty when it has no
bytes. -/
def isEmpty (d : Disk) (p : Path) : Option Bool :=
  match d.locate p with
  | none => none
  | some l =>
      match d.node l with
      | none => none
      | some .dir => some (d.children l = [])
      | some (.file i) => some (d.content i = [])

/-- The bytes of a regular file. -/
def read (d : Disk) (p : Path) : Option Bytes :=
  match d.status p with
  | some (.file i) => some (d.content i)
  | _ => none

/-- Everything strictly below `l`. -/
def entriesBelow (d : Disk) (l : Loc) : List Loc :=
  d.support.dedup.filter (fun k => l <+: k ∧ k ≠ l ∧ d.node k ≠ none)

/-! ### What the calls do -/

/-- To walk a list of steps is to walk its parts one after the other. -/
theorem walk_append (d : Disk) (l : Loc) (ss ts : List Step) :
    d.walk l (ss ++ ts) = (d.walk l ss).bind fun k => d.walk k ts := by
  induction ss generalizing l with
  | nil => rfl
  | cons s ss ih =>
      simp only [List.cons_append, walk]
      split
      · exact ih _
      · rfl

/-- A walk that succeeds ends at the place the steps denote. -/
theorem walk_eq_foldl {d : Disk} {l k : Loc} {ss : List Step} (h : d.walk l ss = some k) :
    k = ss.foldl Step.apply l := by
  induction ss generalizing l with
  | nil => exact (Option.some.inj h).symm
  | cons s ss ih =>
      simp only [walk] at h
      split at h
      · exact ih h
      · exact absurd h (by simp)

/-- Where a path resolves, it resolves to what its text denotes. -/
theorem locate_eq_denote {d : Disk} {p : Path} {l : Loc} (h : d.locate p = some l) :
    l = denote p := by
  unfold locate at h
  split at h
  · exact absurd h (by simp)
  · exact walk_eq_foldl h

/-- What a path names is what stands where it resolves. -/
theorem status_eq_some {d : Disk} {p : Path} {v : Node} :
    d.status p = some v ↔ ∃ l, d.locate p = some l ∧ d.node l = some v :=
  Option.bind_eq_some_iff

/-- What a path reads is a file's bytes. -/
theorem read_eq_some {d : Disk} {p : Path} {bytes : Bytes} :
    d.read p = some bytes ↔ ∃ i, d.status p = some (.file i) ∧ d.content i = bytes := by
  unfold read
  split
  · rename_i i h
    simp [h]
  · rename_i h
    simp only [reduceCtorEq, false_iff, not_exists, not_and]
    exact fun i hi => absurd hi (h i)

/-- A tree with at least the same directories finds what was found before. -/
theorem walk_mono {d d' : Disk} (h : ∀ k, d.node k = some .dir → d'.node k = some .dir) {l k : Loc}
    {ss : List Step} (hwalk : d.walk l ss = some k) : d'.walk l ss = some k := by
  induction ss generalizing l with
  | nil => exact hwalk
  | cons s ss ih =>
      simp only [walk] at hwalk ⊢
      split at hwalk
      · rename_i hdir
        rw [if_pos (h l hdir)]
        exact ih hwalk
      · exact absurd hwalk (by simp)

/-- A path that resolves still does where no directory was lost. -/
theorem locate_mono {d d' : Disk} (h : ∀ k, d.node k = some .dir → d'.node k = some .dir)
    {p : Path} {l : Loc} (hlocate : d.locate p = some l) : d'.locate p = some l := by
  unfold locate at hlocate ⊢
  split at hlocate
  · exact absurd hlocate (by simp)
  · rename_i hp
    rw [if_neg hp]
    exact walk_mono h hlocate

/-- A new file is in no directory's place. -/
theorem addFile_dir {d : Disk} {l : Loc} (h : d.Free l) (k : Loc) (hk : d.node k = some .dir) :
    (d.addFile l).node k = some .dir := by
  have hkl : k ≠ l := by
    rintro rfl
    rw [h.2.1] at hk
    exact absurd hk (by simp)
  rw [addFile_node h, Function.update_of_ne hkl, hk]

/-- The path of a new file names that file. -/
theorem status_addFile {d : Disk} {p : Path} {l : Loc} (hl : d.locate p = some l)
    (h : d.Free l) : (d.addFile l).status p = some (.file d.next) := by
  rw [status_eq_some]
  exact ⟨l, locate_mono (addFile_dir h) hl, by rw [addFile_node h, Function.update_self]⟩

/-- The parent of a directory is a directory. -/
theorem dir_dropLast {d : Disk} {l : Loc} (h : d.node l = some .dir) :
    d.node l.dropLast = some .dir := by
  by_cases hl : l = []
  · rw [hl]
    exact d.root_dir
  · exact d.parent_dir l hl (by rw [h]; simp)

/-- A walk ends at an entry or at a free place. -/
theorem walk_free {d : Disk} {l k : Loc} {ss : List Step} (hl : d.node l ≠ none)
    (h : d.walk l ss = some k) (hk : d.node k = none) : d.Free k := by
  induction ss using List.reverseRecOn generalizing k with
  | nil =>
      rw [← Option.some.inj h] at hk
      exact absurd hk hl
  | append_singleton ss s ih =>
      rw [walk_append] at h
      obtain ⟨m, -, hstep⟩ := Option.bind_eq_some_iff.mp h
      simp only [walk] at hstep
      split at hstep
      · rename_i hdir
        rw [← Option.some.inj hstep] at hk ⊢
        -- Only a step down can end at a place where nothing is.
        cases s with
        | stay => exact absurd hk (by rw [Step.apply, hdir]; simp)
        | up => exact absurd hk (by rw [Step.apply, dir_dropLast hdir]; simp)
        | down n =>
            refine ⟨by simp [Step.apply], hk, ?_⟩
            rw [Step.apply, List.dropLast_concat, hdir]
      · exact absurd hstep (by simp)

/-- The place that a path resolves to is free when nothing stands there. -/
theorem locate_free {d : Disk} {p : Path} {l : Loc} (h : d.locate p = some l)
    (hl : d.node l = none) : d.Free l := by
  unfold locate at h
  split at h
  · exact absurd h (by simp)
  · exact walk_free (by rw [d.root_dir]; simp) h hl

/-- `makeDirs` only adds directories: an entry of the new tree was there or is a new
directory, and no file's bytes change. -/
theorem makeDirs_spec (d : Disk) (l : Loc) (ss : List Step) :
    (∀ k, (d.makeDirs l ss).1.node k = d.node k ∨
      (d.node k = none ∧ (d.makeDirs l ss).1.node k = some .dir)) ∧
    (d.makeDirs l ss).1.content = d.content ∧ (d.makeDirs l ss).1.next = d.next := by
  induction ss generalizing d l with
  | nil => exact ⟨fun k => Or.inl rfl, rfl, rfl⟩
  | cons s ss ih =>
      cases s with
      | stay => exact ih d l
      | up => exact ih d l.dropLast
      | down n =>
          simp only [makeDirs]
          split
          · exact ih d _
          · exact ⟨fun k => Or.inl rfl, rfl, rfl⟩
          · rename_i hnone
            obtain ⟨hnode, hcontent, hnext⟩ := ih (d.addDir (l ++ [n])) (l ++ [n])
            refine ⟨fun k => ?_, hcontent.trans (addDir_content d _),
              hnext.trans (addDir_next d _)⟩
            by_cases hfree : d.Free (l ++ [n])
            · -- The new directory is the only entry that the recursion did not find.
              rw [addDir_node hfree] at hnode
              have hk := hnode k
              by_cases hkl : k = l ++ [n]
              · subst hkl
                rw [Function.update_self] at hk
                rcases hk with hk | hk
                · exact Or.inr ⟨hnone, hk⟩
                · exact absurd (hk.1) (by simp)
              · rwa [Function.update_of_ne hkl] at hk
            · have hsame : d.addDir (l ++ [n]) = d := by simp [addDir, hfree]
              rw [hsame] at hnode ⊢
              exact hnode k

/-- `makeDirs` from a directory, when it succeeds, ends in a directory. -/
theorem makeDirs_dir {d d' : Disk} {l : Loc} {ss : List Step} (hl : d.node l = some .dir)
    (h : d.makeDirs l ss = (d', true)) : d'.node (ss.foldl Step.apply l) = some .dir := by
  induction ss generalizing d l with
  | nil =>
      cases h
      exact hl
  | cons s ss ih =>
      cases s with
      | stay => exact ih hl h
      | up => exact ih (dir_dropLast hl) h
      | down n =>
          simp only [makeDirs] at h
          split at h
          · exact ih ‹_› h
          · exact absurd ((Prod.mk.inj h).2) (by simp)
          · rename_i hnone
            have hfree : d.Free (l ++ [n]) := ⟨by simp, hnone, by simpa using hl⟩
            exact ih (by rw [addDir_node hfree]; exact Function.update_self _ _ _) h

/-- `create_directories` leaves an entry as it was, or makes a directory where there was none. -/
theorem createDirectories_node (d : Disk) (p : Path) (k : Loc) :
    (d.createDirectories p).1.node k = d.node k ∨
      (d.node k = none ∧ (d.createDirectories p).1.node k = some .dir) := by
  unfold createDirectories
  split
  · exact Or.inl rfl
  · exact (d.makeDirs_spec [] (steps p)).1 k

/-- `create_directories` changes no file. -/
@[simp] theorem createDirectories_content (d : Disk) (p : Path) :
    (d.createDirectories p).1.content = d.content := by
  unfold createDirectories
  split
  · rfl
  · exact (d.makeDirs_spec [] (steps p)).2.1

/-- `create_directories` takes no inode. -/
@[simp] theorem createDirectories_next (d : Disk) (p : Path) :
    (d.createDirectories p).1.next = d.next := by
  unfold createDirectories
  split
  · rfl
  · exact (d.makeDirs_spec [] (steps p)).2.2

/-- Where it succeeds, the path names a directory. -/
theorem createDirectories_dir {d : Disk} {p : Path} (h : (d.createDirectories p).2 = true) :
    (d.createDirectories p).1.node (denote p) = some .dir := by
  unfold createDirectories at h ⊢
  split
  · rename_i hp
    rw [if_pos hp] at h
    exact absurd h (by simp)
  · rename_i hp
    rw [if_neg hp] at h
    exact makeDirs_dir d.root_dir (Prod.ext rfl h)

/-- The three ways an open for appending can end: it fails, it finds a file, or it makes
one. -/
theorem openAppend_cases (d : Disk) (p : Path) :
    d.openAppend p = (d, none) ∨
    (∃ l i, d.locate p = some l ∧ d.node l = some (.file i) ∧ d.openAppend p = (d, some i)) ∨
    ∃ l, d.locate p = some l ∧ d.Free l ∧ d.openAppend p = (d.addFile l, some d.next) := by
  unfold openAppend
  cases hl : d.locate p with
  | none => exact Or.inl rfl
  | some l =>
      cases hn : d.node l with
      | none => exact Or.inr (Or.inr ⟨l, rfl, locate_free hl hn, by simp only [hn]⟩)
      | some v =>
          cases v with
          | dir => exact Or.inl (by simp only [hn])
          | file i => exact Or.inr (Or.inl ⟨l, i, rfl, hn, by simp only [hn]⟩)

/-- A `remove` leaves the tree alone or takes one entry out of which nothing hangs. -/
theorem remove_cases (d : Disk) (p : Path) :
    (d.remove p).1 = d ∨
    ∃ l, d.locate p = some l ∧ l ≠ [] ∧ d.node l ≠ none ∧ d.children l = [] ∧
      d.remove p = (d.detach l, true) := by
  unfold remove
  cases hl : d.locate p with
  | none => exact Or.inl rfl
  | some l =>
      cases hn : d.node l with
      | none => simp [hn]
      | some v =>
          simp only [hn]
          split
          · exact Or.inl rfl
          · rename_i h
            simp only [not_or, ne_eq, Decidable.not_not] at h
            exact Or.inr ⟨l, rfl, h.2.1, by simp [hn], h.2.2, rfl⟩

/-- A removal changes no file that is still named. -/
@[simp] theorem remove_content (d : Disk) (p : Path) : (d.remove p).1.content = d.content := by
  rcases d.remove_cases p with h | ⟨l, -, -, -, -, h⟩ <;> simp [h]

/-- A removal does not give an inode back. -/
@[simp] theorem remove_next (d : Disk) (p : Path) : (d.remove p).1.next = d.next := by
  rcases d.remove_cases p with h | ⟨l, -, -, -, -, h⟩ <;> simp [h]

/-- A `rename` leaves the tree alone or moves an entry over what stood at the target. -/
theorem rename_cases (d : Disk) (p q : Path) :
    (d.rename p q).1 = d ∨
    ∃ src dst v, d.locate p = some src ∧ d.locate q = some dst ∧ d.node src = some v ∧
      src ≠ dst ∧ ¬ src <+: dst ∧ d.replaceable v dst = true ∧
      d.rename p q = ((d.detach dst).move src dst, true) := by
  unfold rename
  cases hp : d.locate p with
  | none => exact Or.inl rfl
  | some src =>
      cases hq : d.locate q with
      | none => exact Or.inl rfl
      | some dst =>
          cases hn : d.node src with
          | none => simp [hn]
          | some v =>
              simp only [hn]
              split
              · exact Or.inl rfl
              · split
                · exact Or.inl rfl
                · split
                  · exact Or.inl rfl
                  -- Nothing stands in the way, and what is at `dst` can be replaced.
                  · rename_i h1 h2 h3
                    simp only [not_or, Decidable.not_not] at h3
                    exact Or.inr ⟨src, dst, v, rfl, rfl, hn, h2, h3.1, h3.2, rfl⟩

/-- A renaming changes no file. -/
@[simp] theorem rename_content (d : Disk) (p q : Path) :
    (d.rename p q).1.content = d.content := by
  rcases d.rename_cases p q with h | ⟨src, dst, v, -, -, -, -, -, -, h⟩ <;> simp [h]

/-- A renaming takes no inode. -/
@[simp] theorem rename_next (d : Disk) (p q : Path) : (d.rename p q).1.next = d.next := by
  rcases d.rename_cases p q with h | ⟨src, dst, v, -, -, -, -, -, -, h⟩ <;> simp [h]

/-- Opening a file takes one inode or none. -/
theorem openAppend_next_le (d : Disk) (p : Path) : d.next ≤ (d.openAppend p).1.next := by
  rcases d.openAppend_cases p with h | ⟨l, i, -, -, h⟩ | ⟨l, -, hfree, h⟩
  · rw [h]
  · rw [h]
  · rw [h, addFile_next hfree]
    omega

/-- An opened file's inode is in use. -/
theorem openAppend_lt {d : Disk} {p : Path} {i : Nat} (h : (d.openAppend p).2 = some i) :
    i < (d.openAppend p).1.next := by
  rcases d.openAppend_cases p with h' | ⟨l, j, -, hn, h'⟩ | ⟨l, -, hfree, h'⟩
  · rw [h'] at h
    exact absurd h (by simp)
  · rw [h'] at h ⊢
    cases h
    exact d.fresh l _ hn
  · rw [h'] at h ⊢
    cases h
    rw [addFile_next hfree]
    omega

/-! ### Trees that grow -/

/-- Every entry is still there, and every file in use has its bytes. -/
structure Extends (d d' : Disk) : Prop where
  node : ∀ k v, d.node k = some v → d'.node k = some v
  content : ∀ i, i < d.next → d'.content i = d.content i
  next : d.next ≤ d'.next

/-- A disk extends itself. -/
theorem Extends.refl (d : Disk) : Extends d d := ⟨fun _ _ h => h, fun _ _ => rfl, Nat.le_refl _⟩

/-- What extends an extension extends the disk. -/
theorem Extends.trans {d d' d'' : Disk} (h : Extends d d') (h' : Extends d' d'') :
    Extends d d'' where
  node := fun k v hk => h'.node k v (h.node k v hk)
  content := fun i hi => (h'.content i (Nat.lt_of_lt_of_le hi h.next)).trans (h.content i hi)
  next := Nat.le_trans h.next h'.next

/-- A path that resolves goes on to resolve to the same place. -/
theorem Extends.locate {d d' : Disk} (h : Extends d d') {p : Path} {l : Loc}
    (hl : d.locate p = some l) : d'.locate p = some l :=
  locate_mono (fun k hk => h.node k .dir hk) hl

/-- What a path names is still there. -/
theorem Extends.status {d d' : Disk} (h : Extends d d') {p : Path} {v : Node}
    (hp : d.status p = some v) : d'.status p = some v := by
  obtain ⟨l, hl, hv⟩ := status_eq_some.mp hp
  exact status_eq_some.mpr ⟨l, h.locate hl, h.node l v hv⟩

/-- Making directories only adds. -/
theorem createDirectories_extends (d : Disk) (p : Path) : Extends d (d.createDirectories p).1 where
  node := by
    intro k v hk
    rcases d.createDirectories_node p k with h | ⟨h, -⟩
    · rw [h, hk]
    · rw [h] at hk
      exact absurd hk (by simp)
  content := fun i _ => congrFun (d.createDirectories_content p) i
  next := Nat.le_of_eq (d.createDirectories_next p).symm

/-- A new file at a free place only adds. -/
theorem addFile_extends {d : Disk} {l : Loc} (h : d.Free l) : Extends d (d.addFile l) where
  node := by
    intro k v hk
    have hkl : k ≠ l := by
      rintro rfl
      rw [h.2.1] at hk
      exact absurd hk (by simp)
    rw [addFile_node h, Function.update_of_ne hkl, hk]
  content := by
    intro i hi
    have hne : i ≠ d.next := by omega
    rw [addFile_content h, Function.update_of_ne hne]
  next := by
    rw [addFile_next h]
    omega

/-- Opening for appending only adds: a file that is there keeps its bytes. -/
theorem openAppend_extends (d : Disk) (p : Path) : Extends d (d.openAppend p).1 := by
  rcases d.openAppend_cases p with h | ⟨l, i, -, -, h⟩ | ⟨l, -, hfree, h⟩
  · rw [h]
    exact .refl d
  · rw [h]
    exact .refl d
  · rw [h]
    exact addFile_extends hfree

/-- Opening a file for appending makes no directory. -/
theorem openAppend_dir_iff (d : Disk) (p : Path) (k : Loc) :
    (d.openAppend p).1.node k = some .dir ↔ d.node k = some .dir := by
  rcases d.openAppend_cases p with h | ⟨l, i, -, -, h⟩ | ⟨l, -, hfree, h⟩
  · rw [h]
  · rw [h]
  · rw [h]
    refine ⟨fun hk => ?_, addFile_dir hfree k⟩
    by_cases hkl : k = l
    · simp [addFile_node hfree, hkl] at hk
    · rwa [addFile_node hfree, Function.update_of_ne hkl] at hk

/-- Two trees with the same directories find the same paths. -/
theorem locate_of_dirs {d d' : Disk} (h : ∀ k, d'.node k = some .dir ↔ d.node k = some .dir)
    (p : Path) : d'.locate p = d.locate p :=
  Option.ext fun _ => ⟨locate_mono fun k => (h k).mp, locate_mono fun k => (h k).mpr⟩

/-- A path that names a directory names one after a file was opened. -/
theorem openAppend_status_dir (d : Disk) (p q : Path) :
    (d.openAppend p).1.status q = some .dir ↔ d.status q = some .dir := by
  rw [status_eq_some, status_eq_some, locate_of_dirs (d.openAppend_dir_iff p)]
  exact exists_congr fun k => and_congr_right fun _ => d.openAppend_dir_iff p k

/-! ### Files that are there -/

/-- A path that ends in dots has no last component, or one of dots. -/
theorem components_getLast? {p : Path} (h : endsInDots p = true) :
    (components (cString p)).getLast? = none ∨
      ∃ c, (components (cString p)).getLast? = some c ∧ (c = [dot] ∨ c = [dot, dot]) := by
  unfold endsInDots at h
  split at h
  · rename_i hlast
    exact Or.inl hlast
  · rename_i c hlast
    exact Or.inr ⟨c, hlast, by simpa using h⟩

/-- A walk whose last step does not go down ends in a directory. -/
theorem walk_last_dir {d : Disk} {l k : Loc} {ss : List Step} {s : Step}
    (hs : s = .stay ∨ s = .up) (h : d.walk l (ss ++ [s]) = some k) : d.node k = some .dir := by
  rw [walk_append] at h
  obtain ⟨m, -, hstep⟩ := Option.bind_eq_some_iff.mp h
  simp only [walk] at hstep
  split at hstep
  · rename_i hdir
    rw [← Option.some.inj hstep]
    rcases hs with rfl | rfl
    · exact hdir
    · exact dir_dropLast hdir
  · exact absurd hstep (by simp)

/-- A path that ends in dots names no file. -/
theorem endsInDots_of_file {d : Disk} {p : Path} {l : Loc} {i : Nat} (hl : d.locate p = some l)
    (hi : d.node l = some (.file i)) : endsInDots p = false := by
  by_contra h
  rw [Bool.not_eq_false] at h
  have hdir : d.node l = some .dir := by
    unfold locate at hl
    split at hl
    · exact absurd hl (by simp)
    -- The last step is the last component's, or the one of a trailing separator.
    rcases components_getLast? h with hnone | ⟨c, hlast, hc⟩
    · rw [List.getLast?_eq_none_iff] at hnone
      unfold steps at hl
      rw [hnone] at hl
      split at hl
      · exact @walk_last_dir d [] l [] .stay (Or.inl rfl) hl
      · rw [← Option.some.inj hl]
        exact d.root_dir
    · obtain ⟨cs, hcs⟩ := List.getLast?_eq_some_iff.mp hlast
      unfold steps at hl
      rw [hcs] at hl
      split at hl
      · exact walk_last_dir (Or.inl rfl) hl
      · rw [List.append_nil, List.map_append, List.map_singleton] at hl
        refine walk_last_dir ?_ hl
        rcases hc with rfl | rfl
        · exact Or.inl rfl
        · exact Or.inr rfl
  rw [hi] at hdir
  exact absurd hdir (by simp)

/-- A file can be removed. -/
theorem remove_file {d : Disk} {p : Path} {l : Loc} {i : Nat} (hl : d.locate p = some l)
    (hi : d.node l = some (.file i)) : d.remove p = (d.detach l, true) := by
  simp only [remove, hl, hi]
  rw [if_neg (by simp [endsInDots_of_file hl hi, ne_nil_of_file hi, children_file hi])]

/-- A file that is removed is gone. -/
theorem remove_file_node {d : Disk} {p : Path} {l : Loc} {i : Nat} (hl : d.locate p = some l)
    (hi : d.node l = some (.file i)) : (d.remove p).1.node = Function.update d.node l none := by
  rw [remove_file hl hi, detach_node (ne_nil_of_file hi) (children_file hi)]

/-! ### Below and above a location -/

/-- A path below a location that is found leads through the location: it ends there, or the
location is a directory. -/
theorem locate_below {d : Disk} {l k : Loc} {r : Path} (hl : l ≠ [])
    (hr : r = [] ∨ r.head? = some sep) (h : d.locate (toPath l ++ r) = some k) :
    k = l ∨ d.node l = some .dir := by
  unfold locate at h
  split at h
  · exact absurd h (by simp)
  · rw [steps_toPath_append hl hr, walk_append] at h
    obtain ⟨m, hm, hrest⟩ := Option.bind_eq_some_iff.mp h
    have hml := walk_eq_foldl hm
    rw [foldl_apply_down, List.nil_append] at hml
    subst hml
    -- A first step below the location needs a directory there.
    cases hsteps : steps r with
    | nil =>
        rw [hsteps] at hrest
        exact Or.inl (Option.some.inj hrest).symm
    | cons s ss =>
        rw [hsteps] at hrest
        simp only [walk] at hrest
        split at hrest
        · exact Or.inr ‹_›
        · exact absurd hrest (by simp)

/-- A place above an entry is not empty. -/
theorem children_ne_nil {d : Disk} {k l : Loc} (hkl : k <+: l) (hne : k ≠ l)
    (hl : d.node l ≠ none) : d.children k ≠ [] := by
  obtain ⟨t, rfl⟩ := hkl
  cases t with
  | nil => exact absurd (List.append_nil k).symm hne
  | cons n t =>
      rw [ne_eq, children_eq_nil_iff]
      intro h
      have hnone := h (k ++ [n]) (by simp) (by simp)
      -- The child on the way to `l` is `l`, or a directory above it.
      have hprefix : k ++ [n] <+: k ++ n :: t := ⟨t, by simp⟩
      by_cases heq : k ++ [n] = k ++ n :: t
      · exact hl (heq ▸ hnone)
      · rw [d.dir_of_prefix hprefix heq hl] at hnone
        exact absurd hnone (by simp)

/-- A path that counts as empty and leads through a location does not end above it. -/
theorem isEmpty_below {d : Disk} {l : Loc} {r : Path} (hl : l ≠ [])
    (hr : r = [] ∨ r.head? = some sep) (h : d.isEmpty (toPath l ++ r) = some true)
    (habove : denote (toPath l ++ r) <+: l) : denote (toPath l ++ r) = l := by
  unfold isEmpty at h
  split at h
  · exact absurd h (by simp)
  rename_i k hk
  have hkdenote := locate_eq_denote hk
  by_contra hne
  rcases locate_below hl hr hk with hkl | hdir
  · exact hne (hkdenote ▸ hkl)
  · have hchildren := children_ne_nil habove hne (by rw [hdir]; simp)
    have hkdir := d.dir_of_prefix habove hne (by rw [hdir]; simp)
    rw [← hkdenote] at hchildren hkdir
    simp only [hkdir] at h
    simp [hchildren] at h

/-! ### The text of a location on the disk -/

/-- Going down names: the walk succeeds when every place on the way is a directory. -/
theorem walk_down {d : Disk} {k : Loc} (l : Loc)
    (h : ∀ m, m <+: l → m ≠ l → d.node (k ++ m) = some .dir) :
    d.walk k (l.map Step.down) = some (k ++ l) := by
  induction l using List.reverseRecOn with
  | nil => simp [walk]
  | append_singleton l n ih =>
      have hl : l ≠ l ++ [n] := by simp
      have hprefix : l <+: l ++ [n] := List.prefix_append l [n]
      rw [List.map_append, walk_append, ih fun m hm hne => h m (hm.trans hprefix) ?_]
      · simp only [Option.bind_some, List.map_singleton, walk, h l hprefix hl, if_true, Step.apply,
          List.append_assoc]
      · rintro rfl
        exact absurd hm.length_le (by simp)

/-- The text of a location is found when everything above the location is a directory. -/
theorem locate_toPath {d : Disk} {l : Loc} (h : ∀ m, m <+: l → m ≠ l → d.node m = some .dir) :
    d.locate (toPath l) = some l := by
  unfold locate
  rw [cString_toPath, if_neg (toPath_ne_nil l)]
  by_cases hl : l = []
  · subst hl
    have hsteps : steps (toPath []) = [.stay] := by decide
    rw [hsteps, walk, if_pos d.root_dir]
    rfl
  · rw [steps_toPath hl, walk_down l (by simpa using h), List.nil_append]

/-- A text that names a location is looked up there or nowhere. -/
theorem eq_of_locate_toPath {d : Disk} {l k : Loc} (h : d.locate (toPath l) = some k) : k = l :=
  (locate_eq_denote h).trans (denote_toPath l)

/-- The path of a place where something stands leads there. -/
theorem locate_toPath_of_node {d : Disk} {l : Loc} (h : d.node l ≠ none) :
    d.locate (toPath l) = some l :=
  locate_toPath fun _ hm hne => d.dir_of_prefix hm hne h

/-- The text of a location is found when its parent is a directory. -/
theorem locate_toPath_of_dir {d : Disk} {l : Loc} {n : Name} (h : d.node l = some .dir) :
    d.locate (toPath (l ++ [n])) = some (l ++ [n]) := by
  refine locate_toPath fun m hm hne => ?_
  rcases List.prefix_concat_iff.mp hm with heq | hm
  · exact absurd heq hne
  · by_cases hml : m = l
    · rw [hml, h]
    · exact d.dir_of_prefix hm hml (by rw [h]; simp)

/-- The path of a place names what stands there. -/
theorem status_toPath (d : Disk) (l : Loc) : d.status (toPath l) = d.node l := by
  cases hl : d.node l with
  | some v =>
      rw [status_eq_some]
      exact ⟨l, locate_toPath_of_node (by rw [hl]; simp), hl⟩
  | none =>
      rw [Option.eq_none_iff_forall_ne_some]
      intro v hv
      obtain ⟨k, hk, hv⟩ := status_eq_some.mp hv
      rw [eq_of_locate_toPath hk, hl] at hv
      exact absurd hv (by simp)

/-- The path of a file reads its bytes. -/
theorem read_toPath {d : Disk} {l : Loc} {i : Nat} (h : d.node l = some (.file i)) :
    d.read (toPath l) = some (d.content i) :=
  read_eq_some.mpr ⟨i, by rw [status_toPath, h], rfl⟩

/-- Nothing hangs below a file, nor below a place where nothing is. -/
theorem node_below {d : Disk} {l t : Loc} (h : d.node l ≠ some .dir) (ht : t ≠ []) :
    d.node (l ++ t) = none := by
  by_contra hnode
  exact h (d.dir_of_prefix (List.prefix_append l t) (by simpa using ht) hnode)

/-- Taking out a place where nothing is changes nothing. -/
theorem detach_node_none {d : Disk} {l : Loc} (h : d.node l = none) :
    (d.detach l).node = d.node := by
  unfold detach
  split
  · exact Function.update_eq_self_iff.mpr h.symm
  · rfl

/-- The path of a place below the root does not end in dots. -/
theorem endsInDots_toPath {l : Loc} (hl : l ≠ []) : endsInDots (toPath l) = false := by
  obtain ⟨l, n, rfl⟩ := l.eq_nil_or_concat'.resolve_left hl
  have hcomps := components_toPath_append hl (Or.inl rfl)
  rw [List.append_nil, components_nil, List.append_nil, List.map_append] at hcomps
  unfold endsInDots
  rw [cString_toPath, hcomps]
  simp [n.2.2.1, n.2.2.2.1]

/-- A file is not above a free place, whose parent is a directory. -/
theorem not_prefix_of_file {d : Disk} {src dst : Loc} {i : Nat} (hsrc : d.node src = some (.file i))
    (hdst : d.Free dst) : ¬ src <+: dst := by
  rintro ⟨t, rfl⟩
  have ht : t ≠ [] := by
    rintro rfl
    have hnone := hdst.2.1
    rw [List.append_nil, hsrc] at hnone
    exact absurd hnone (by simp)
  have hdir := hdst.2.2
  rw [List.dropLast_append_of_ne_nil ht] at hdir
  -- The parent would be the file itself, or hang below it.
  by_cases hlast : t.dropLast = []
  · rw [hlast, List.append_nil, hsrc] at hdir
    exact absurd hdir (by simp)
  · rw [node_below (by rw [hsrc]; simp) hlast] at hdir
    exact absurd hdir (by simp)

/-- The entries after a file has moved to a place where nothing is: one entry has moved, because
nothing hangs below either place. -/
theorem moved_file {d : Disk} {src dst : Loc} {i : Nat} (hsrc : d.node src = some (.file i))
    (hdst : d.node dst = none) (l : Loc) : moved d.node src dst l =
      if l = dst then some (.file i) else if l = src then none else d.node l := by
  have hsrcbelow : ∀ t, t ≠ [] → d.node (src ++ t) = none :=
    fun t ht => node_below (by rw [hsrc]; simp) ht
  have hdstbelow : ∀ t, t ≠ [] → d.node (dst ++ t) = none :=
    fun t ht => node_below (by rw [hdst]; simp) ht
  unfold moved
  -- Of the two subtrees only the roots hold something.
  by_cases hld : dst <+: l
  · obtain ⟨t, rfl⟩ := hld
    rw [if_pos (List.prefix_append _ _), List.drop_left]
    by_cases ht : t = []
    · subst ht
      rw [List.append_nil, List.append_nil, if_pos rfl, hsrc]
    · rw [hsrcbelow t ht, hdstbelow t ht, if_neg (by simpa using ht), ite_self]
  · have hlne : l ≠ dst := fun h => hld (h ▸ List.prefix_refl l)
    rw [if_neg hld, if_neg hlne]
    by_cases hls : src <+: l
    · obtain ⟨t, rfl⟩ := hls
      rw [if_pos (List.prefix_append _ _)]
      by_cases ht : t = []
      · subst ht
        rw [List.append_nil, if_pos rfl]
      · rw [hsrcbelow t ht, ite_self]
    · have hlne' : l ≠ src := fun h => hls (h ▸ List.prefix_refl l)
      rw [if_neg hls, if_neg hlne']

/-- A file can be renamed to a free place. Then it stands there, and nowhere else. -/
theorem rename_file {d : Disk} {src dst : Loc} {i : Nat} (hsrc : d.node src = some (.file i))
    (hdst : d.Free dst) : (d.rename (toPath src) (toPath dst)).2 = true ∧
      ∀ l, (d.rename (toPath src) (toPath dst)).1.node l =
        if l = dst then some (.file i) else if l = src then none else d.node l := by
  have hsrcne := ne_nil_of_file hsrc
  have hprefix := not_prefix_of_file hsrc hdst
  have hne : src ≠ dst := fun h => hprefix (h ▸ List.prefix_refl src)
  obtain ⟨dst, n, rfl⟩ := dst.eq_nil_or_concat'.resolve_left hdst.1
  have hdir : d.node dst = some .dir := by simpa using hdst.2.2
  have hreplace : d.replaceable (.file i) (dst ++ [n]) = true := by simp [replaceable, hdst.2.1]
  have hrename : d.rename (toPath src) (toPath (dst ++ [n])) =
      ((d.detach (dst ++ [n])).move src (dst ++ [n]), true) := by
    unfold rename
    rw [locate_toPath_of_node (by rw [hsrc]; simp), locate_toPath_of_dir hdir]
    simp only [hsrc, endsInDots_toPath hsrcne, endsInDots_toPath hdst.1, hne, hprefix, hreplace]
    simp
  -- Nothing stands at the target, so taking it out changes nothing.
  have hdetach := detach_node_none hdst.2.1
  have hfree : (d.detach (dst ++ [n])).Free (dst ++ [n]) := by
    unfold Free
    rw [hdetach]
    exact hdst
  rw [hrename]
  refine ⟨rfl, fun l => ?_⟩
  show ((d.detach (dst ++ [n])).move src (dst ++ [n])).node l = _
  rw [move_node hfree hsrcne hprefix, hdetach, moved_file hsrc hdst.2.1]

end Disk

end RemoteBackup.Lib
