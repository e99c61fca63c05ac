import Mathlib.Data.Finmap

/-!
# `RemoteBackup.Lib.Keyed`: lists of entries as finite maps

A container keeps entries `(p, v)` and takes two spellings `p` and `q` for one key when
`key p = key q`. An assignment to a key that is there keeps its spelling.

* `toMap_assign`, `toMap_discard`: the operations are those of the finite map `toMap` on the keys.
* `find_assign`, `find_discard`: the same for single lookups.
* `find_congr`, `assign_congr`, `discard_congr`: the operations under two keys that take the same
  entries for one.
-/

set_option autoImplicit false

namespace RemoteBackup.Lib.Keyed

variable {P K K' V : Type} [DecidableEq K] [DecidableEq K'] (key : P → K) (key' : P → K')

/-- The value of a key. -/
def find (t : List (P × V)) (k : K) : Option V := (t.find? fun e => key e.1 = k).map Prod.snd

/-- The key has an entry. -/
def has (t : List (P × V)) (k : K) : Bool := t.any fun e => key e.1 = k

/-- Insert an entry, or assign to those of its key. The flag tells an insertion. -/
def assign (t : List (P × V)) (p : P) (v : V) : List (P × V) × Bool :=
  if has key t (key p) then (t.map fun e => if key e.1 = key p then (e.1, v) else e, false)
  else (t ++ [(p, v)], true)

/-- Erase the entries of a key. The flag tells that there were any. -/
def discard (t : List (P × V)) (k : K) : List (P × V) × Bool :=
  (t.filter fun e => ¬ key e.1 = k, has key t k)

/-- No two entries have one key. -/
def Distinct (t : List (P × V)) : Prop := (t.map fun e => key e.1).Nodup

/-- The finite map of the entries. -/
def toMap (t : List (P × V)) : Finmap fun _ : K => V :=
  (t.map fun e => (⟨key e.1, e.2⟩ : Σ _ : K, V)).toFinmap

variable {key key'}

/-! ### Lookups -/

/-- Nothing is found in an empty table. -/
@[simp] theorem find_nil (k : K) : find key ([] : List (P × V)) k = none := rfl

/-- An entry is found before those behind it. -/
@[simp] theorem find_cons (e : P × V) (t : List (P × V)) (k : K) :
    find key (e :: t) k = if key e.1 = k then some e.2 else find key t k := by
  by_cases h : key e.1 = k
  · simp [find, h]
  · simp [find, h]

/-- A key is had when an entry carries it. -/
theorem has_iff {t : List (P × V)} {k : K} : has key t k = true ↔ ∃ e ∈ t, key e.1 = k := by
  simp [has]

/-- A key is had when it is found. -/
theorem has_eq_isSome (t : List (P × V)) (k : K) : has key t k = (find key t k).isSome := by
  induction t with
  | nil => rfl
  | cons e t ih =>
      rw [find_cons]
      by_cases h : key e.1 = k
      · simp [has, h]
      · rw [if_neg h, ← ih]
        simp [has, h]

/-- A lookup after an assignment to the entries of one key. -/
theorem find_map (t : List (P × V)) (j k : K) (v : V) :
    find key (t.map fun e => if key e.1 = j then (e.1, v) else e) k =
      if j = k ∧ has key t k = true then some v else find key t k := by
  induction t with
  | nil => simp [has]
  | cons e t ih =>
      rw [List.map_cons, find_cons, find_cons, ih]
      by_cases he : key e.1 = j
      · subst he
        by_cases hk : key e.1 = k
        · simp [hk, has]
        · simp [hk]
      · by_cases hk : key e.1 = k
        · subst hk
          simp [he, Ne.symm he]
        · have hhas : has key (e :: t) k = has key t k := by simp [has, hk]
          simp [he, hk, hhas]

/-- A key is looked for in the first table, and then in the second. -/
theorem find_append (t t' : List (P × V)) (k : K) :
    find key (t ++ t') k = (find key t k).or (find key t' k) := by
  rw [find, List.find?_append, Option.map_or]
  rfl

/-- After an assignment its key leads to the new value, and every other key where it led. -/
theorem find_assign (t : List (P × V)) (p : P) (v : V) (k : K) :
    find key (assign key t p v).1 k = if key p = k then some v else find key t k := by
  unfold assign
  split
  · rename_i hhas
    rw [find_map]
    by_cases hk : key p = k
    · subst hk
      rw [if_pos ⟨rfl, hhas⟩, if_pos rfl]
    · rw [if_neg fun h => hk h.1, if_neg hk]
  · rename_i hhas
    rw [find_append, find_cons, find_nil]
    by_cases hk : key p = k
    · subst hk
      rw [has_eq_isSome, Option.not_isSome_iff_eq_none] at hhas
      rw [hhas, if_pos rfl]
      rfl
    · rw [if_neg hk, if_neg hk, Option.or_none]

/-- After a discard its key leads nowhere, and every other key where it led. -/
theorem find_discard (t : List (P × V)) (j k : K) :
    find key (discard key t j).1 k = if j = k then none else find key t k := by
  unfold discard
  induction t with
  | nil => simp
  | cons e t ih =>
      by_cases he : key e.1 = j
      · subst he
        rw [List.filter_cons_of_neg (by simp), ih, find_cons]
        split <;> rfl
      · rw [List.filter_cons_of_pos (by simpa using he), find_cons, find_cons, ih]
        by_cases hk : key e.1 = k
        · subst hk
          rw [if_pos rfl, if_pos rfl, if_neg (Ne.symm he)]
        · rw [if_neg hk, if_neg hk]

/-- Where no two entries have one key, a lookup finds every entry. -/
theorem find_eq_some_iff {t : List (P × V)} (h : Distinct key t) {k : K} {v : V} :
    find key t k = some v ↔ ∃ p, (p, v) ∈ t ∧ key p = k := by
  induction t with
  | nil => simp
  | cons e t ih =>
      obtain ⟨hhead, htail⟩ := List.nodup_cons.mp h
      obtain ⟨q, w⟩ := e
      rw [find_cons]
      by_cases hk : key q = k
      · subst hk
        rw [if_pos rfl, Option.some.injEq]
        constructor
        · rintro rfl
          exact ⟨q, List.mem_cons_self, rfl⟩
        · rintro ⟨p, hp, hkey⟩
          rcases List.mem_cons.mp hp with heq | hp
          · exact (Prod.mk.inj heq).2.symm
          · exact absurd (List.mem_map.mpr ⟨(p, v), hp, hkey⟩) hhead
      · rw [if_neg hk, ih htail]
        constructor
        · rintro ⟨p, hp, hkey⟩
          exact ⟨p, List.mem_cons_of_mem _ hp, hkey⟩
        · rintro ⟨p, hp, hkey⟩
          rcases List.mem_cons.mp hp with heq | hp
          · exact absurd ((Prod.mk.inj heq).1 ▸ hkey) hk
          · exact ⟨p, hp, hkey⟩

/-! ### Entries -/

/-- An assignment brings no key twice. -/
theorem distinct_assign {t : List (P × V)} (h : Distinct key t) (p : P) (v : V) :
    Distinct key (assign key t p v).1 := by
  unfold assign
  split
  · -- An assignment leaves the keys as they are.
    have hkeys : ((t.map fun e => if key e.1 = key p then (e.1, v) else e).map fun e => key e.1) =
        t.map fun e => key e.1 := by
      rw [List.map_map]
      refine List.map_congr_left fun e _ => ?_
      show key (if key e.1 = key p then (e.1, v) else e).1 = key e.1
      split <;> rfl
    rw [Distinct, hkeys]
    exact h
  · rename_i hhas
    rw [Distinct, List.map_append, List.nodup_append]
    refine ⟨h, List.nodup_singleton _, ?_⟩
    intro k hk k' hk'
    obtain ⟨e, he, rfl⟩ := List.mem_map.mp hk
    obtain rfl := List.mem_singleton.mp hk'
    exact fun heq => hhas (has_iff.mpr ⟨e, he, heq⟩)

/-- An assignment brings no other spelling than that of its own entry. -/
theorem mem_assign {t : List (P × V)} {p : P} {v : V} {e : P × V} (h : e ∈ (assign key t p v).1) :
    e = (p, v) ∨ ∃ e' ∈ t, e.1 = e'.1 := by
  unfold assign at h
  split at h
  · obtain ⟨e', he', rfl⟩ := List.mem_map.mp h
    refine Or.inr ⟨e', he', ?_⟩
    split <;> rfl
  · rcases List.mem_append.mp h with he | he
    · exact Or.inr ⟨e, he, rfl⟩
    · exact Or.inl (List.mem_singleton.mp he)

/-- A discard brings no key twice. -/
theorem distinct_discard {t : List (P × V)} (h : Distinct key t) (k : K) :
    Distinct key (discard key t k).1 :=
  h.sublist (List.filter_sublist.map _)

/-! ### The finite map -/

/-- The map has under a key what is found under it. -/
theorem lookup_toMap (t : List (P × V)) (k : K) : (toMap key t).lookup k = find key t k := by
  induction t with
  | nil => rfl
  | cons e t ih =>
      show (Finmap.insert (key e.1) e.2 (toMap key t)).lookup k = _
      rw [find_cons]
      by_cases h : key e.1 = k
      · subst h
        rw [if_pos rfl, Finmap.lookup_insert]
      · rw [if_neg h, Finmap.lookup_insert_of_ne _ (Ne.symm h), ih]

/-- A key is had when the map has it. -/
theorem has_eq_mem (t : List (P × V)) (k : K) : has key t k = decide (k ∈ toMap key t) := by
  rw [has_eq_isSome, ← lookup_toMap, Bool.eq_iff_iff, Finmap.lookup_isSome, decide_eq_true_eq]

/-- An assignment reports whether its key was new. -/
theorem assign_snd (t : List (P × V)) (p : P) (v : V) :
    (assign key t p v).2 = !has key t (key p) := by
  unfold assign
  cases has key t (key p) <;> rfl

/-- To the map, an assignment is an insertion. -/
theorem toMap_assign (t : List (P × V)) (p : P) (v : V) :
    toMap key (assign key t p v).1 = (toMap key t).insert (key p) v := by
  refine Finmap.ext_lookup fun k => ?_
  rw [lookup_toMap, find_assign]
  by_cases hk : key p = k
  · subst hk
    rw [if_pos rfl, Finmap.lookup_insert]
  · rw [if_neg hk, Finmap.lookup_insert_of_ne _ (Ne.symm hk), lookup_toMap]

/-- To the map, a discard is an erasure. -/
theorem toMap_discard (t : List (P × V)) (j : K) :
    toMap key (discard key t j).1 = (toMap key t).erase j := by
  refine Finmap.ext_lookup fun k => ?_
  rw [lookup_toMap, find_discard]
  by_cases hk : j = k
  · subst hk
    rw [if_pos rfl, Finmap.lookup_erase]
  · rw [if_neg hk, Finmap.lookup_erase_ne (Ne.symm hk), lookup_toMap]

/-! ### Two keys -/

section
variable {t : List (P × V)} {p : P} (h : ∀ e ∈ t, key e.1 = key p ↔ key' e.1 = key' p)
include h

/-- Two key functions that tell the entries alike find the same. -/
theorem find_congr : find key t (key p) = find key' t (key' p) := by
  induction t with
  | nil => rfl
  | cons e t ih =>
      rw [find_cons, find_cons, ih fun e' he' => h e' (List.mem_cons_of_mem _ he')]
      exact if_congr (h e List.mem_cons_self) rfl rfl

/-- They have the same keys. -/
theorem has_congr : has key t (key p) = has key' t (key' p) := by
  rw [has_eq_isSome, has_eq_isSome, find_congr h]

/-- They assign alike. -/
theorem assign_congr (v : V) : assign key t p v = assign key' t p v := by
  rw [assign, assign, has_congr h]
  congr 2
  refine List.map_congr_left fun e he => ?_
  exact if_congr (h e he) rfl rfl

/-- They discard alike. -/
theorem discard_congr : discard key t (key p) = discard key' t (key' p) := by
  rw [discard, discard, has_congr h]
  congr 1
  refine List.filter_congr fun e he => ?_
  exact decide_eq_decide.mpr (not_congr (h e he))

end

end RemoteBackup.Lib.Keyed
