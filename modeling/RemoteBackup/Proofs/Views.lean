import RemoteBackup.Directory.Dir
import RemoteBackup.Lib.Keyed

/-!
# `RemoteBackup.Proofs.Views`: the entries of a view

A lookup after `insert_or_assign` and `erase`. A key stands for all the paths that
the map takes for it (`sameKey`), which is an equivalence. So the map is one under the pair of a
path's hash and its elements (`mapKey`).

* `rsrc_eq_find`, `insertOrAssign_eq_assign`, `erase_eq_discard`: its operations as those of a
  list of entries under that key.
* `rsrc_insertOrAssign`, `rsrc_erase`: an operation changes the lookups of its own key, and
  no other lookup.
* `mem_insertOrAssign`, `mem_erase`: the entries themselves, when the map takes no other key for
  the one that is written.
-/

set_option autoImplicit false

namespace RemoteBackup

open Lib

variable {hash : Bytes → UInt64}

/-- `sameKey` has the three properties of an equivalence. -/
theorem sameKey_refl (p : Path) : sameKey hash p p := ⟨rfl, rfl⟩

/-- Two keys are the same either way. -/
theorem sameKey_symm {p q : Path} (h : sameKey hash p q) : sameKey hash q p :=
  ⟨h.1.symm, h.2.symm⟩

/-- Keys that are the same as a third one are the same. -/
theorem sameKey_trans {p q r : Path} (h : sameKey hash p q) (h' : sameKey hash q r) :
    sameKey hash p r := ⟨h.1.trans h'.1, h.2.trans h'.2⟩

/-- A key that agrees with another one agrees with the same paths. -/
theorem sameKey_congr {p q : Path} (h : sameKey hash p q) (r : Path) :
    sameKey hash r p ↔ sameKey hash r q :=
  ⟨fun hr => sameKey_trans hr h, fun hr => sameKey_trans hr (sameKey_symm h)⟩

/-- What the map compares. -/
def mapKey (hash : Bytes → UInt64) (p : Path) : UInt64 × List Bytes := (hash p, elements p)

/-- Paths have the same key where the map of the source cannot tell them apart. -/
theorem sameKey_iff {p q : Path} : sameKey hash p q ↔ mapKey hash p = mapKey hash q := by
  simp [sameKey, mapKey]

namespace Dir

variable (d : Dir) (p q : Path) (r : Resource)

/-- An entry found by a lookup is in the map. -/
theorem mem_of_rsrc {d : Dir} {p : Path} {r : Resource} (h : d.rsrc hash p = some r) :
    ∃ k, (k, r) ∈ d.content ∧ sameKey hash k p := by
  unfold rsrc at h
  obtain ⟨e, hfind, he⟩ := Option.map_eq_some_iff.mp h
  refine ⟨e.1, ?_, by simpa using List.find?_some hfind⟩
  rw [← he]
  exact List.mem_of_find?_eq_some hfind

/-- `rsrc` is the lookup of a keyed table. -/
theorem rsrc_eq_find :
    d.rsrc hash p = Keyed.find (mapKey hash) d.content (mapKey hash p) := by
  rw [rsrc, Keyed.find]
  congr 2
  funext e
  exact decide_eq_decide.mpr sameKey_iff

/-- `contains` is its test for a key. -/
theorem contains_eq_has :
    d.contains hash p = Keyed.has (mapKey hash) d.content (mapKey hash p) := by
  rw [contains, Keyed.has]
  congr 1
  funext e
  exact decide_eq_decide.mpr sameKey_iff

/-- `insert_or_assign` is its assignment. -/
theorem insertOrAssign_eq_assign :
    d.insertOrAssign hash p r =
      ({ d with content := (Keyed.assign (mapKey hash) d.content p r).1 },
        (Keyed.assign (mapKey hash) d.content p r).2) := by
  rw [insertOrAssign, Keyed.assign, contains_eq_has]
  split
  · congr 2
    refine List.map_congr_left fun e _ => ?_
    exact if_congr sameKey_iff rfl rfl
  · rfl

/-- `erase` is its removal of a key. -/
theorem erase_eq_discard :
    d.erase hash p =
      ({ d with content := (Keyed.discard (mapKey hash) d.content (mapKey hash p)).1 },
        (Keyed.discard (mapKey hash) d.content (mapKey hash p)).2) := by
  rw [erase, Keyed.discard, contains_eq_has]
  congr 2
  refine List.filter_congr fun e _ => ?_
  exact decide_eq_decide.mpr (not_congr sameKey_iff)

variable {p q} in
/-- One key has one entry. -/
theorem rsrc_congr (h : sameKey hash p q) : d.rsrc hash p = d.rsrc hash q := by
  simp only [rsrc, sameKey_congr h]

/-- A lookup after `insert_or_assign`. -/
theorem rsrc_insertOrAssign : (d.insertOrAssign hash p r).1.rsrc hash q =
    if sameKey hash p q then some r else d.rsrc hash q := by
  rw [insertOrAssign_eq_assign, rsrc_eq_find, Keyed.find_assign, ← rsrc_eq_find]
  exact if_congr sameKey_iff.symm rfl rfl

/-- A lookup after `erase`. -/
theorem rsrc_erase : (d.erase hash p).1.rsrc hash q =
    if sameKey hash p q then none else d.rsrc hash q := by
  rw [erase_eq_discard, rsrc_eq_find, Keyed.find_discard, ← rsrc_eq_find]
  exact if_congr sameKey_iff.symm rfl rfl

/-! ### The entries themselves -/

section
variable {d p r} (hkeys : ∀ e ∈ d.content, sameKey hash e.1 p → e.1 = p)
include hkeys

/-- The map takes no other key for `p`, so an assignment writes the entry of `p` alone. -/
theorem mem_insertOrAssign (e : Path × Resource) :
    e ∈ (d.insertOrAssign hash p r).1.content ↔ e = (p, r) ∨ (e.1 ≠ p ∧ e ∈ d.content) := by
  have hsame : ∀ e ∈ d.content, (sameKey hash e.1 p ↔ e.1 = p) := by
    intro e he
    refine ⟨hkeys e he, ?_⟩
    rintro h
    rw [h]
    exact sameKey_refl p
  unfold insertOrAssign
  split
  · rename_i hcontains
    obtain ⟨k, hk, hkp⟩ : ∃ e ∈ d.content, sameKey hash e.1 p := by simpa [contains] using hcontains
    simp only [List.mem_map]
    -- One entry has the key, and it is the one that is written.
    constructor
    · rintro ⟨e', he', rfl⟩
      by_cases hep : sameKey hash e'.1 p
      · rw [if_pos hep, hkeys e' he' hep]
        exact Or.inl rfl
      · rw [if_neg hep]
        exact Or.inr ⟨fun h => hep ((hsame e' he').mpr h), he'⟩
    · rintro (rfl | ⟨hne, he⟩)
      · exact ⟨k, hk, by rw [if_pos hkp, hkeys k hk hkp]⟩
      · exact ⟨e, he, if_neg fun h => hne (hkeys e he h)⟩
  · rename_i hcontains
    have hnone : ∀ e ∈ d.content, ¬ sameKey hash e.1 p := by
      simpa [contains] using hcontains
    simp only [List.mem_append, List.mem_singleton]
    constructor
    · rintro (he | rfl)
      · exact Or.inr ⟨fun h => hnone e he ((hsame e he).mpr h), he⟩
      · exact Or.inl rfl
    · rintro (rfl | ⟨-, he⟩)
      · exact Or.inr rfl
      · exact Or.inl he

/-- The map takes no other key for `p`, so an erasure takes the entry of `p` alone. -/
theorem mem_erase (e : Path × Resource) :
    e ∈ (d.erase hash p).1.content ↔ e.1 ≠ p ∧ e ∈ d.content := by
  simp only [erase, List.mem_filter, decide_not, Bool.not_eq_true', decide_eq_false_iff_not]
  constructor
  · rintro ⟨he, hne⟩
    exact ⟨fun h => hne (h ▸ sameKey_refl e.1), he⟩
  · rintro ⟨hne, he⟩
    exact ⟨he, fun h => hne (hkeys e he h)⟩

/-- What is found under a path is an entry of the view. -/
theorem mem_of_rsrc_eq (h : d.rsrc hash p = some r) : (p, r) ∈ d.content := by
  obtain ⟨k, hk, hkp⟩ := mem_of_rsrc h
  have hkeq : k = p := hkeys (k, r) hk hkp
  exact hkeq ▸ hk

end

/-- The view stays one of the same directory. -/
@[simp] theorem insertOrAssign_path : (d.insertOrAssign hash p r).1.path = d.path := by
  unfold insertOrAssign
  split <;> rfl

/-- The view stays one of the same directory. -/
@[simp] theorem erase_path : (d.erase hash p).1.path = d.path := rfl

end Dir

end RemoteBackup
