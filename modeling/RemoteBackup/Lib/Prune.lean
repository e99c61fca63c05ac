import RemoteBackup.Lib.Replace
import RemoteBackup.Lib.Subtree

/-!
# `RemoteBackup.Lib.Prune`: the directories that come and go along a path

When a file is put at a path, the directories on the way are made (`Grown`).

An entry `l` is removed, then its parent if that is empty now, and so on upwards, but not `home`
or beyond. `Emptied` says on the tree before which places go: those that hold nothing but what
lies on the path to `l`.

`Cleared d l m e` is the state of the climb when it has come to `m`: `e` is `d` without the path
to `l` below `m`, and all that has gone held nothing else.

* `cleared_remove`, `Cleared.next`: the first removal and the later ones.
* `Cleared.children_iff`: where the climb stands is empty when it holds nothing but the path.
* `Cleared.emptied`: what is gone when the climb ends.
* `createDirectories_toPath`: the directories on the way, when no file stands there.
* `Grown.undone`: a climb that begins with a new file takes away what was made for it, when the
  directories that were there before held something else.
-/

set_option autoImplicit false

namespace RemoteBackup.Lib.Disk

/-- What stands at or below `k` lies on the path to `l`. -/
def Alone (d : Disk) (l k : Loc) : Prop := ∀ m, k <+: m → d.node m ≠ none → m <+: l

/-- The places on the path to `l`, below `home`, that hold nothing but the path. -/
def Emptied (d : Disk) (home l k : Loc) : Prop := home <+: k ∧ k ≠ home ∧ k <+: l ∧ d.Alone l k

/-- `e` is `d` without the path to `l` below `m`, which held nothing else. -/
structure Cleared (d : Disk) (l m : Loc) (e : Disk) : Prop where
  gone : ∀ k, m <+: k → k ≠ m → k <+: l → e.node k = none ∧ d.Alone l k
  stays : ∀ k, ¬ (m <+: k ∧ k ≠ m ∧ k <+: l) → e.node k = d.node k
  content : e.content = d.content

variable {d e : Disk} {l m : Loc}

/-- Further down the same entry is alone as well. -/
theorem Alone.mono (h : d.Alone l m) {k : Loc} (hk : m <+: k) : d.Alone l k :=
  fun j hj hnode => h j (hk.trans hj) hnode

/-- Between a place and its child there is no other. -/
theorem eq_of_between {k : Loc} {n : Name} (hmk : m <+: k) (hne : k ≠ m) (hk : k <+: m ++ [n]) :
    k = m ++ [n] := by
  rcases List.prefix_concat_iff.mp hk with hk | hk
  · exact hk
  · exact absurd (hk.eq_of_length_le hmk.length_le) hne

/-- The first place behind `m` on the way to a place below it. -/
theorem exists_child {k : Loc} (hmk : m <+: k) (hne : k ≠ m) : ∃ n, m ++ [n] <+: k := by
  obtain ⟨t, rfl⟩ := hmk
  cases t with
  | nil => exact absurd (List.append_nil m) hne
  | cons n t => exact ⟨n, t, by simp⟩

/-- A file is empty when it has no bytes. -/
theorem isEmpty_file {i : Nat} (h : d.node l = some (.file i)) :
    d.isEmpty (toPath l) = some (decide (d.content i = [])) := by
  rw [isEmpty, locate_toPath_of_node (by rw [h]; simp)]
  simp only [h]

/-- What is found empty or not is there. -/
theorem node_of_isEmpty {b : Bool} (h : d.isEmpty (toPath l) = some b) : d.node l ≠ none := by
  intro hnone
  unfold isEmpty at h
  split at h
  · exact absurd h (by simp)
  · rename_i k hk
    obtain rfl := eq_of_locate_toPath hk
    simp only [hnone] at h
    exact absurd h (by simp)

/-- The climb begins with a file, below which nothing stands. -/
theorem cleared_remove {n : Name} {i : Nat} (hfile : d.node (m ++ [n]) = some (.file i)) :
    (d.remove (toPath (m ++ [n]))).2 = true ∧
      Cleared d (m ++ [n]) m (d.remove (toPath (m ++ [n]))).1 := by
  have hlocate := locate_toPath_of_node (by rw [hfile]; simp)
  have hnode := remove_file_node hlocate hfile
  refine ⟨by rw [remove_file hlocate hfile], ?_, ?_, remove_content d _⟩
  · intro k hmk hne hk
    obtain rfl := eq_of_between hmk hne hk
    refine ⟨by rw [hnode, Function.update_self], fun j hj hj' => ?_⟩
    obtain ⟨t, rfl⟩ := hj
    by_cases ht : t = []
    · simp [ht]
    · exact absurd (node_below (by rw [hfile]; simp) ht) hj'
  · intro k hk
    rw [hnode, Function.update_of_ne]
    rintro rfl
    exact hk ⟨List.prefix_append m [n], by simp, List.prefix_refl _⟩

/-- A directory is empty after the removal when the entry was alone below it. -/
theorem Cleared.children_iff (h : Cleared d l m e) (hml : m <+: l) :
    e.children m = [] ↔ d.Alone l m := by
  rw [children_eq_nil_iff]
  constructor
  · intro hchildren k hmk hk
    by_cases hne : k = m
    · rwa [hne]
    · -- The child of `m` on the way to `k` has gone, so it held nothing but the path.
      obtain ⟨n, hn⟩ := exists_child hmk hne
      have hchild : d.node (m ++ [n]) ≠ none := by
        by_cases hkn : m ++ [n] = k
        · rwa [hkn]
        · rw [d.dir_of_prefix hn hkn hk]
          simp
      have hpath : m <+: m ++ [n] ∧ m ++ [n] ≠ m ∧ m ++ [n] <+: l := by
        by_contra hout
        exact hchild ((h.stays _ hout).symm.trans
          (hchildren _ (by simp) (List.dropLast_concat)))
      exact (h.gone _ hpath.1 hpath.2.1 hpath.2.2).2 k hn hk
  · intro halone k hk hparent
    have hmk : m <+: k := hparent ▸ List.dropLast_prefix k
    have hne : k ≠ m := fun hkm => dropLast_ne_self hk (hparent.trans hkm.symm)
    by_cases hkl : k <+: l
    · exact (h.gone k hmk hne hkl).1
    · rw [h.stays k fun hpath => hkl hpath.2.2]
      by_contra hnode
      exact hkl (halone k hmk hnode)

/-- Where the climb stands there is still a directory. -/
theorem Cleared.dir (h : Cleared d l m e) (hml : m <+: l) (hne : m ≠ l) (hl : d.node l ≠ none) :
    e.node m = some .dir := by
  rw [h.stays m fun hpath => hpath.2.1 rfl]
  exact d.dir_of_prefix hml hne hl

/-- The question that the climb asks at each place. -/
theorem Cleared.isEmpty_iff (h : Cleared d l m e) (hml : m <+: l) (hne : m ≠ l)
    (hl : d.node l ≠ none) : e.isEmpty (toPath m) = some true ↔ d.Alone l m := by
  have hdir := h.dir hml hne hl
  rw [isEmpty, locate_toPath_of_node (by rw [hdir]; simp)]
  simp only [hdir, Option.some.injEq, decide_eq_true_eq]
  exact h.children_iff hml

/-- An empty directory goes, and the climb is at its parent. -/
theorem Cleared.next {n : Name} (h : Cleared d l (m ++ [n]) e) (hml : m ++ [n] <+: l)
    (hne : m ++ [n] ≠ l) (hl : d.node l ≠ none) (halone : d.Alone l (m ++ [n])) :
    (e.remove (toPath (m ++ [n]))).2 = true ∧
      Cleared d l m (e.remove (toPath (m ++ [n]))).1 := by
  have hdir := h.dir hml hne hl
  have hlocate : e.locate (toPath (m ++ [n])) = some (m ++ [n]) :=
    locate_toPath_of_node (by rw [hdir]; simp)
  have hremove := remove_of_childless hlocate (by simp) (endsInDots_toPath (by simp))
    fun _ => (h.children_iff hml).mpr halone
  have hnode := (remove_gone hlocate hremove).1
  refine ⟨hremove, ?_, ?_, (remove_content e _).trans h.content⟩
  · intro k hmk hkm hkl
    by_cases hk : k = m ++ [n]
    · rw [hk, hnode, Function.update_self]
      exact ⟨rfl, halone⟩
    · -- Both lie on the path, and `k` is not above.
      have hbelow : m ++ [n] <+: k := by
        rcases List.prefix_or_prefix_of_prefix hml hkl with hbelow | habove
        · exact hbelow
        · exact absurd (eq_of_between hmk hkm habove) hk
      rw [hnode, Function.update_of_ne hk]
      exact h.gone k hbelow hk hkl
  · intro k hk
    have hne : k ≠ m ++ [n] := by
      rintro rfl
      exact hk ⟨List.prefix_append m [n], by simp, hml⟩
    rw [hnode, Function.update_of_ne hne]
    refine h.stays k fun hpath => hk ⟨(List.prefix_append m [n]).trans hpath.1, ?_, hpath.2.2⟩
    rintro rfl
    have hlength := hpath.1.length_le
    rw [List.length_append, List.length_singleton] at hlength
    omega

/-- What is gone when the climb ends, at `home` or where something else is left. -/
theorem Cleared.emptied (h : Cleared d l m e) {home : Loc} (hhome : home <+: m) (hml : m <+: l)
    (hend : m = home ∨ ¬ d.Alone l m) (k : Loc) :
    (d.Emptied home l k → e.node k = none) ∧ (¬ d.Emptied home l k → e.node k = d.node k) := by
  constructor
  · rintro ⟨hbelow, hne, hkl, halone⟩
    have hmk : m <+: k ∧ k ≠ m := by
      rcases hend with rfl | hkept
      · exact ⟨hbelow, hne⟩
      · rcases List.prefix_or_prefix_of_prefix hml hkl with hmk | hkm
        · exact ⟨hmk, fun hkm => hkept (hkm ▸ halone)⟩
        · exact absurd (halone.mono hkm) hkept
    exact (h.gone k hmk.1 hmk.2 hkl).1
  · intro hkept
    refine h.stays k fun hpath => hkept ⟨hhome.trans hpath.1, ?_, hpath.2.2,
      (h.gone k hpath.1 hpath.2.1 hpath.2.2).2⟩
    rintro rfl
    exact hpath.2.1 (hhome.eq_of_length_le hpath.1.length_le)

/-! ### Making the directories on the way -/

/-- No file stands on the way to `l`. -/
def Passable (d : Disk) (l : Loc) : Prop := ∀ k, k <+: l → ¬ d.IsFile k

/-- On the way to a child of `m` there are only directories, as far as the way is there. -/
theorem passable_concat {n : Name}
    (h : ∀ k, k <+: m → d.node k = none ∨ d.node k = some .dir) :
    d.Passable (m ++ [n]).dropLast := by
  rw [List.dropLast_concat]
  rintro k hk ⟨i, hi⟩
  rcases h k hk with hnode | hnode
  · rw [hi] at hnode
    exact absurd hnode (by simp)
  · rw [hi] at hnode
    exact absurd hnode (by simp)

/-- A free place blocks no way. -/
theorem Passable.of_free (h : d.Passable l.dropLast) (hl : d.node l = none) : d.Passable l := by
  rcases List.eq_nil_or_concat' l with rfl | ⟨m, n, rfl⟩
  · exact h
  · intro k hk
    rw [List.dropLast_concat] at h
    rcases List.prefix_concat_iff.mp hk with rfl | hk
    · rintro ⟨i, hi⟩
      rw [hl] at hi
      exact absurd hi (by simp)
    · exact h k hk

/-- The directories between two places. Induction on the way down. -/
theorem makeDirs_node {rest : Loc} (hm : d.node m = some .dir)
    (hfile : ∀ k, m <+: k → k <+: m ++ rest → ¬ d.IsFile k) :
    (d.makeDirs m (rest.map .down)).2 = true ∧ ∀ k, (d.makeDirs m (rest.map .down)).1.node k =
      if m <+: k ∧ k <+: m ++ rest then some .dir else d.node k := by
  induction rest generalizing d m with
  | nil =>
      refine ⟨rfl, fun k => ?_⟩
      split
      · rename_i hk
        rw [List.append_nil] at hk
        rw [← hk.1.eq_of_length_le hk.2.length_le]
        exact hm
      · rfl
  | cons n rest ih =>
      have hassoc : m ++ n :: rest = m ++ [n] ++ rest := by simp
      obtain ⟨e, hdown, hdir, hcases⟩ := @makeDirs_down _ m n (rest.map .down) hm
        (hfile _ (List.prefix_append _ _) (by rw [hassoc]; exact List.prefix_append _ _))
      -- The step has made at most the place that it comes to.
      have hstep : ∀ k, k ≠ m ++ [n] → e.node k = d.node k := by
        intro k hk
        rcases hcases with rfl | ⟨hnone, rfl⟩
        · rfl
        · have hfree : d.Free (m ++ [n]) := ⟨by simp, hnone, by rwa [List.dropLast_concat]⟩
          rw [addDir_node hfree, Function.update_of_ne hk]
      rw [hassoc] at hfile ⊢
      obtain ⟨hmade, hnode⟩ := ih hdir fun k hmk hk => by
        by_cases hkn : k = m ++ [n]
        · rw [hkn]
          rintro ⟨i, hi⟩
          rw [hdir] at hi
          exact absurd hi (by simp)
        · rintro ⟨i, hi⟩
          rw [hstep k hkn] at hi
          exact hfile k ((List.prefix_append m [n]).trans hmk) hk ⟨i, hi⟩
      rw [List.map_cons, hdown]
      refine ⟨hmade, fun k => ?_⟩
      rw [hnode k]
      by_cases hnk : m ++ [n] <+: k
      · have hmk := (List.prefix_append m [n]).trans hnk
        by_cases hk : k <+: m ++ [n] ++ rest
        · rw [if_pos ⟨hnk, hk⟩, if_pos ⟨hmk, hk⟩]
        · rw [if_neg fun h => hk h.2, if_neg fun h => hk h.2, hstep]
          rintro rfl
          exact hk (List.prefix_append _ _)
      · rw [if_neg fun h => hnk h.1, hstep k fun h => hnk (h ▸ List.prefix_refl _)]
        split
        · rename_i hk
          -- Only the start of the way is left.
          rcases List.prefix_or_prefix_of_prefix hk.2 (List.prefix_append (m ++ [n]) rest) with
            hkn | hnk'
          · rcases List.prefix_concat_iff.mp hkn with rfl | hkm
            · exact absurd (List.prefix_refl _) hnk
            · rw [← hk.1.eq_of_length_le hkm.length_le]
              exact hm
          · exact absurd hnk' hnk
        · rfl

/-- `create_directories` makes the way to a place that no file stands on. -/
theorem createDirectories_toPath (h : d.Passable l) :
    (d.createDirectories (toPath l)).2 = true ∧ ∀ k, (d.createDirectories (toPath l)).1.node k =
      if k <+: l then some .dir else d.node k := by
  rw [createDirectories, cString_toPath, if_neg (toPath_ne_nil l)]
  by_cases hl : l = []
  · subst hl
    refine ⟨rfl, fun k => ?_⟩
    split
    · rename_i hk
      rw [List.prefix_nil.mp hk]
      exact d.root_dir
    · rfl
  · rw [steps_toPath hl]
    obtain ⟨hmade, hnode⟩ := @makeDirs_node d [] l d.root_dir fun k _ hk => h k hk
    refine ⟨hmade, fun k => ?_⟩
    rw [hnode k]
    simp

/-- A file on the way stops it. -/
theorem passable_of_createDirectories (h : (d.createDirectories (toPath l)).2 = true) :
    d.Passable l := by
  rintro k hk ⟨i, hi⟩
  have hdir := createDirectories_dir h
  rw [denote_toPath] at hdir
  have hfile : (d.createDirectories (toPath l)).1.node k = some (.file i) := by
    rcases d.createDirectories_node (toPath l) k with hsame | ⟨hnone, -⟩
    · rw [hsame, hi]
    · rw [hi] at hnone
      exact absurd hnone (by simp)
  by_cases hkl : k = l
  · subst hkl
    rw [hdir] at hfile
    exact absurd hfile (by simp)
  · have habove := dir_of_prefix _ hk hkl (by rw [hdir]; simp)
    exact absurd (habove.symm.trans hfile) (by simp)

/-- `e` is `d` with the file `i` at `l`, and the directories on the way to it. -/
def Grown (d : Disk) (l : Loc) (i : Nat) (e : Disk) : Prop :=
  ∀ k, e.node k = if k = l then some (.file i) else if k <+: l then some .dir else d.node k

/-- The file is at its place. -/
theorem Grown.file {i : Nat} (h : Grown d l i e) : e.node l = some (.file i) := by
  rw [h l, if_pos rfl]

/-- Off the way to the file everything is as before. -/
theorem Grown.off {i : Nat} (h : Grown d l i e) {k : Loc} (hk : ¬ k <+: l) :
    e.node k = d.node k := by
  have hkl : k ≠ l := by
    rintro rfl
    exact hk (List.prefix_refl k)
  rw [h k, if_neg hkl, if_neg hk]

/-- A second growth by the same file adds nothing. -/
theorem Grown.trans {i : Nat} {f : Disk} (h : Grown d l i e) (h' : Grown e l i f) :
    Grown d l i f := by
  intro k
  rw [h' k, h k]
  split
  · rfl
  · split <;> rfl

/-- Above the new file there are only directories. -/
theorem Grown.passable {i : Nat} (h : Grown d l i e) : e.Passable l.dropLast := by
  rintro k hk ⟨j, hj⟩
  have hkl : k ≠ l := by
    rintro rfl
    have hk' : k = [] := by
      by_contra hne
      have hlength := hk.length_le
      have hpos := List.length_pos_iff.mpr hne
      rw [List.length_dropLast] at hlength
      omega
    rw [hk', e.root_dir] at hj
    exact absurd hj (by simp)
  rw [h k, if_neg hkl, if_pos (hk.trans (List.dropLast_prefix l))] at hj
  exact absurd hj (by simp)

/-- The new file is all that a growth adds or writes to. -/
theorem Grown.sameBut {i : Nat} (h : Grown d l i e) (hpass : d.Passable l.dropLast)
    (hi : ∀ k, d.node k = some (.file i) → k = l) {bytes : Bytes}
    (hcontent : e.content = Function.update d.content i bytes) : SameBut [l] d e := by
  intro k j hk
  rw [List.mem_singleton] at hk
  constructor
  · rw [h k, if_neg hk]
    by_cases hkl : k <+: l
    · have hnot : d.node k ≠ some (.file j) := fun hj => by
        obtain ⟨m, n, rfl⟩ := (List.eq_nil_or_concat' l).resolve_left fun hl =>
          hk ((List.prefix_nil.mp (hl ▸ hkl)).trans hl.symm)
        rw [List.dropLast_concat] at hpass
        rcases List.prefix_concat_iff.mp hkl with heq | hkm
        · exact hk heq
        · exact hpass k hkm ⟨j, hj⟩
      simp [hkl, hnot]
    · rw [if_neg hkl]
  · intro hj
    have hne : j ≠ i := fun hji => hk (hi k (hji ▸ hj))
    rw [hcontent, Function.update_of_ne hne]

/-! ### Opening a file for appending -/

/-- A file that is there is opened as it is. -/
theorem openAppend_file {i : Nat} (h : d.node l = some (.file i)) :
    d.openAppend (toPath l) = (d, some i) := by
  rw [openAppend, locate_toPath_of_node (by rw [h]; simp)]
  simp only [h]

/-- A directory is not opened. -/
theorem openAppend_dir (h : d.node l = some .dir) : d.openAppend (toPath l) = (d, none) := by
  rw [openAppend, locate_toPath_of_node (by rw [h]; simp)]
  simp only [h]

/-- At a free place a file is made. -/
theorem openAppend_free (h : d.Free l) : d.openAppend (toPath l) = (d.addFile l, some d.next) := by
  rw [openAppend, locate_toPath_eq d h.1, if_pos h.2.2]
  simp only [h.2.1]

/-- Opening a file changes no other place. -/
theorem openAppend_off {k : Loc} (hk : k ≠ l) : (d.openAppend (toPath l)).1.node k = d.node k := by
  rcases d.openAppend_cases (toPath l) with h | ⟨m, i, -, -, h⟩ | ⟨m, hm, hfree, h⟩
  · rw [h]
  · rw [h]
  · obtain rfl := eq_of_locate_toPath hm
    rw [h, addFile_node hfree, Function.update_of_ne hk]

/-- Making the directories on the way and opening the file: it is there already, or it is new and
empty. -/
theorem exists_grown (hl : l ≠ []) (hpass : d.Passable l.dropLast) (hdir : d.node l ≠ some .dir) :
    (d.createDirectories (toPath l.dropLast)).2 = true ∧
      ∃ i, ((d.createDirectories (toPath l.dropLast)).1.openAppend (toPath l)).2 = some i ∧
        d.Grown l i ((d.createDirectories (toPath l.dropLast)).1.openAppend (toPath l)).1 ∧
        ((d.node l = some (.file i) ∧
            ((d.createDirectories (toPath l.dropLast)).1.openAppend (toPath l)).1.content =
              d.content) ∨
          (d.node l = none ∧ i = d.next ∧
            ((d.createDirectories (toPath l.dropLast)).1.openAppend (toPath l)).1.content =
              Function.update d.content i [])) := by
  obtain ⟨m, n, rfl⟩ := (List.eq_nil_or_concat' l).resolve_left hl
  rw [List.dropLast_concat] at hpass ⊢
  obtain ⟨hmade, hnode⟩ := createDirectories_toPath hpass
  have hcontent := d.createDirectories_content (toPath m)
  have hnext := d.createDirectories_next (toPath m)
  generalize (d.createDirectories (toPath m)).1 = c at hnode hcontent hnext ⊢
  have hparent : c.node m = some .dir := by rw [hnode m, if_pos (List.prefix_refl m)]
  -- The parent is there now, and the place itself is as it was.
  have hlast : c.node (m ++ [n]) = d.node (m ++ [n]) := by
    rw [hnode, if_neg]
    intro hprefix
    have hlength := hprefix.length_le
    rw [List.length_append, List.length_singleton] at hlength
    omega
  have hway : ∀ k, k ≠ m ++ [n] → c.node k = if k <+: m ++ [n] then some .dir else d.node k := by
    intro k hk
    rw [hnode k]
    simp only [List.prefix_concat_iff, hk, false_or]
  refine ⟨hmade, ?_⟩
  rcases htarget : d.node (m ++ [n]) with _ | _ | i
  · have hfree : c.Free (m ++ [n]) := ⟨by simp, hlast.trans htarget, by rwa [List.dropLast_concat]⟩
    rw [openAppend_free hfree]
    refine ⟨c.next, rfl, fun k => ?_, Or.inr ⟨rfl, hnext, by rw [addFile_content hfree, hcontent]⟩⟩
    rw [addFile_node hfree]
    by_cases hk : k = m ++ [n]
    · rw [hk, Function.update_self, if_pos rfl]
    · rw [Function.update_of_ne hk, if_neg hk, hway k hk]
  · exact absurd htarget hdir
  · rw [openAppend_file (hlast.trans htarget)]
    refine ⟨i, rfl, fun k => ?_, Or.inl ⟨rfl, hcontent⟩⟩
    by_cases hk : k = m ++ [n]
    · rw [hk, if_pos rfl, hlast, htarget]
    · rw [if_neg hk, hway k hk]

/-- The deepest place on the way to `l` where something stands. -/
theorem exists_deepest {rest : Loc} (hm : d.node m ≠ none) :
    ∃ a, m <+: a ∧ a <+: m ++ rest ∧ d.node a ≠ none ∧
      ∀ b, a <+: b → b ≠ a → b <+: m ++ rest → d.node b = none := by
  induction rest generalizing m with
  | nil =>
      refine ⟨m, List.prefix_refl m, List.prefix_append _ _, hm, fun b hb hne hbm => ?_⟩
      rw [List.append_nil] at hbm
      exact absurd (hb.eq_of_length_le hbm.length_le).symm hne
  | cons n rest ih =>
      have hassoc : m ++ n :: rest = m ++ [n] ++ rest := by simp
      by_cases hn : d.node (m ++ [n]) = none
      · refine ⟨m, List.prefix_refl m, List.prefix_append _ _, hm, fun b hb hne hbm => ?_⟩
        -- A place below what is not there is not there.
        obtain ⟨n', hn'⟩ := exists_child hb hne
        have hsame : m ++ [n'] = m ++ [n] := by
          rw [hassoc] at hbm
          refine List.IsPrefix.eq_of_length ?_ (by simp)
          exact List.prefix_of_prefix_length_le (hn'.trans hbm) (List.prefix_append _ _) (by simp)
        rw [hsame] at hn'
        obtain ⟨t, rfl⟩ := hn'
        by_cases ht : t = []
        · simpa [ht] using hn
        · exact node_below (by rw [hn]; simp) ht
      · obtain ⟨a, hma, ha, hnode, hbelow⟩ := ih hn
        rw [hassoc]
        exact ⟨a, (List.prefix_append m [n]).trans hma, ha, hnode, hbelow⟩

/-- What goes with a new file: what was made for it, when the directories on the way that were
there before are not empty. -/
theorem Grown.emptied_iff {i : Nat} (h : Grown d l i e) (hl : d.node l = none) {home : Loc}
    (hfull : ∀ k, home <+: k → k ≠ home → k <+: l → d.node k ≠ none → d.children k ≠ [])
    {k : Loc} (hbelow : home <+: k) (hne : k ≠ home) (hk : k <+: l) :
    e.Emptied home l k ↔ d.node k = none := by
  constructor
  · rintro ⟨-, -, -, halone⟩
    by_contra hnode
    obtain ⟨rest, rfl⟩ := hk
    -- The deepest directory that was there holds something that is not on the way.
    obtain ⟨a, hka, ha, hstands, hdeepest⟩ := @exists_deepest d k rest hnode
    have hahome : a ≠ home := by
      rintro rfl
      exact hne (hka.eq_of_length_le hbelow.length_le)
    have hchildren := hfull a (hbelow.trans hka) hahome ha hstands
    rw [ne_eq, children_eq_nil_iff] at hchildren
    push Not at hchildren
    obtain ⟨b, hb, hparent, hbnode⟩ := hchildren
    have hab : a <+: b := hparent ▸ List.dropLast_prefix b
    have hbne : b ≠ a := fun hba => dropLast_ne_self hb (hparent.trans hba.symm)
    have hboff : ¬ b <+: k ++ rest := fun hpath => hbnode (hdeepest b hab hbne hpath)
    refine hboff (halone b (hka.trans hab) ?_)
    rw [h.off hboff]
    exact hbnode
  · intro hnone
    refine ⟨hbelow, hne, hk, fun m hkm hm => ?_⟩
    by_contra hoff
    rw [h.off hoff] at hm
    obtain ⟨t, rfl⟩ := hkm
    by_cases ht : t = []
    · simp [ht, hnone] at hm
    · exact hm (node_below (by rw [hnone]; simp) ht)

/-- A climb that begins with a new file ends with the tree from before. -/
theorem Grown.undone {i : Nat} (h : Grown d l i e) (hl : d.node l = none) (hpass : d.Passable l)
    {home : Loc} (hhome : d.node home = some .dir) (hlhome : home <+: l)
    (hfull : ∀ k, home <+: k → k ≠ home → k <+: l → d.node k ≠ none → d.children k ≠ [])
    {e' : Disk} (hgone : ∀ k, e.Emptied home l k → e'.node k = none)
    (hkept : ∀ k, ¬ e.Emptied home l k → e'.node k = e.node k) : e'.node = d.node := by
  funext k
  by_cases hk : home <+: k ∧ k ≠ home ∧ k <+: l
  · have hiff := h.emptied_iff hl hfull hk.1 hk.2.1 hk.2.2
    by_cases hnone : d.node k = none
    · rw [hgone k (hiff.mpr hnone), hnone]
    · have hkl : k ≠ l := fun hkl => hnone (hkl ▸ hl)
      rw [hkept k fun hemptied => hnone (hiff.mp hemptied), h k, if_neg hkl, if_pos hk.2.2]
      rcases hnode : d.node k with _ | _ | j
      · exact absurd hnode hnone
      · rfl
      · exact absurd ⟨j, hnode⟩ (hpass k hk.2.2)
  · rw [hkept k fun hemptied => hk ⟨hemptied.1, hemptied.2.1, hemptied.2.2.1⟩, h k]
    have hkl : k ≠ l := by
      rintro rfl
      have hkhome : k = home := by
        by_contra hne
        exact hk ⟨hlhome, hne, List.prefix_refl k⟩
      rw [hkhome, hhome] at hl
      exact absurd hl (by simp)
    rw [if_neg hkl]
    split
    · rename_i hpath
      -- At or above the user's directory everything was there.
      have habove : k <+: home := by
        rcases List.prefix_or_prefix_of_prefix hpath hlhome with habove | hbelow
        · exact habove
        · by_cases hkhome : k = home
          · exact hkhome ▸ List.prefix_refl home
          · exact absurd ⟨hbelow, hkhome, hpath⟩ hk
      by_cases hkhome : k = home
      · rw [hkhome, hhome]
      · rw [d.dir_of_prefix habove hkhome (by rw [hhome]; simp)]
    · rfl

end RemoteBackup.Lib.Disk
