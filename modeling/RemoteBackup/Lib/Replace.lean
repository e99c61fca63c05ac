import RemoteBackup.Lib.FileTree

/-!
# `RemoteBackup.Lib.Replace`: replacing a file through a second one

A program that replaces a file writes the new content to a second file, whose path is that of
the first with a suffix behind it, removes the first, and renames the second. `GivesWay` says
when a path lets the last two calls succeed. `replace_iff` proves it exact.

* `steps_append_suffix`: a suffix behind a path extends its last name, or names an entry of the
  directory that the path ends in.
* `remove_gone`: after a `remove` without an error nothing is left where the path led.
* `replaced_read_iff`, `replaced_stays_iff`: what the path names after the replacement.
* `givesWay_openAppend`: opening the second file changes nothing about it.
* `SameBut`: the files that stand elsewhere.
-/

set_option autoImplicit false

namespace RemoteBackup.Lib

/-! ### A suffix behind a path -/

/-- A path is its last name, or has a separator before it. -/
theorem exists_last_name (p : Path) :
    sep ∉ p ∨ ∃ q name, p = q ++ sep :: name ∧ sep ∉ name := by
  induction p with
  | nil => exact Or.inl (by simp)
  | cons b p ih =>
      rcases ih with hp | ⟨q, name, rfl, hname⟩
      · by_cases hb : b = sep
        · subst hb
          exact Or.inr ⟨[], p, rfl, hp⟩
        · refine Or.inl fun h => ?_
          rcases List.mem_cons.mp h with h | h
          · exact hb h.symm
          · exact hp h
      · exact Or.inr ⟨b :: q, name, rfl, hname⟩

/-- A text without a separator that is longer than the two dots is a name. -/
theorem plain_append_suffix {name s : Bytes} (hname : sep ∉ name) (hnul : nul ∉ name)
    (hs : sep ∉ s ∧ nul ∉ s ∧ 2 < s.length) : Plain (name ++ s) := by
  have hlen : 2 < (name ++ s).length := by
    rw [List.length_append]
    omega
  have hne : ∀ t : Bytes, t.length ≤ 2 → name ++ s ≠ t := by
    rintro t ht rfl
    omega
  exact ⟨hne _ (by simp), hne _ (by simp), hne _ (by simp), by simp [hname, hs.1],
    by simp [hnul, hs.2.1]⟩

/-- The steps of a path whose text ends in a name are those of its components. -/
theorem steps_of_getLast? {p : Path} (hnul : nul ∉ p) (hlast : p.getLast? ≠ some sep) :
    steps p = (components p).map Step.ofComponent := by
  rw [steps, cString_of_notMem hnul, if_neg hlast, List.append_nil]

/-- A suffix without a separator keeps the path from ending in one. -/
theorem getLast?_ne_sep {p q : Path} (hq : q ≠ []) (hsep : sep ∉ q) :
    (p ++ q).getLast? ≠ some sep := by
  rw [List.getLast?_append, List.getLast?_eq_some_getLast hq, Option.some_or]
  exact fun h => hsep (Option.some.inj h ▸ List.getLast_mem hq)

/-- A plain component is a step down. -/
theorem Step.ofComponent_plain {s : Bytes} (h : Plain s) : Step.ofComponent s = .down ⟨s, h⟩ :=
  Step.ofComponent_name ⟨s, h⟩

/-- The step of a component, when it is a name, is that name. -/
theorem Step.ofComponent_down {s : Bytes} {n : Name} (h : Step.ofComponent s = .down n) :
    n.1 = s := by
  unfold Step.ofComponent at h
  split at h
  · exact absurd h (by simp)
  · split at h
    · exact absurd h (by simp)
    · split at h
      · rw [← Step.down.inj h]
      · exact absurd h (by simp)

/-- The steps of a path with a suffix end in a name. The path itself has a last step in its
place, and a name there is the one that was extended. -/
theorem steps_append_suffix {p s : Path} (hp : nul ∉ p)
    (hs : sep ∉ s ∧ nul ∉ s ∧ 2 < s.length) : ∃ ss n, steps (p ++ s) = ss ++ [.down n] ∧
      (p = [] ∨ ∃ t, steps p = ss ++ [t] ∧ ∀ m, t = .down m → n = m.extend s hs) := by
  have hsne : s ≠ [] := by
    rintro rfl
    exact absurd hs.2.2 (by simp)
  have hextend : ∀ (name : Path) (h : Plain (name ++ s)) (m : Name),
      Step.ofComponent name = .down m → (⟨name ++ s, h⟩ : Name) = m.extend s hs :=
    fun name h m hm => Subtype.ext (congrArg (· ++ s) (Step.ofComponent_down hm).symm)
  have hsteps : steps (p ++ s) = (components (p ++ s)).map Step.ofComponent :=
    steps_of_getLast? (by simp [hp, hs.2.1]) (getLast?_ne_sep hsne hs.1)
  rcases exists_last_name p with hsep | ⟨q, name, rfl, hsep⟩
  · have hplain := plain_append_suffix hsep hp hs
    refine ⟨[], ⟨p ++ s, hplain⟩, ?_, ?_⟩
    · rw [hsteps, components_of_sep_notMem hplain.2.2.2.1 hplain.1, List.map_singleton,
        Step.ofComponent_plain hplain, List.nil_append]
    · by_cases hne : p = []
      · exact Or.inl hne
      · refine Or.inr ⟨Step.ofComponent p, ?_, hextend p hplain⟩
        rw [steps_of_getLast? hp (by simpa using getLast?_ne_sep (p := []) hne hsep),
          components_of_sep_notMem hsep hne, List.map_singleton, List.nil_append]
  · have hnul : nul ∉ name := fun h => hp (by simp [h])
    have hplain := plain_append_suffix hsep hnul hs
    refine ⟨(components q).map Step.ofComponent, ⟨name ++ s, hplain⟩, ?_, Or.inr ?_⟩
    · rw [hsteps, List.append_assoc, List.cons_append, components_append_sep,
        components_of_sep_notMem hplain.2.2.2.1 hplain.1, List.map_append, List.map_singleton,
        Step.ofComponent_plain hplain]
    · by_cases hne : name = []
      · -- The path ends in a separator, which asks for the directory itself.
        subst hne
        refine ⟨.stay, ?_, fun m h => absurd h (by simp)⟩
        rw [steps, cString_of_notMem hp, components_append_sep, components_nil, List.append_nil,
          if_pos (by simp)]
      · refine ⟨Step.ofComponent name, ?_, hextend name hplain⟩
        rw [steps_of_getLast? hp (by simpa using getLast?_ne_sep (p := q ++ [sep]) hne hsep),
          components_append_sep, components_of_sep_notMem hsep hne, List.map_append,
          List.map_singleton]

namespace Disk

/-- A path whose last step goes down does not end in dots. -/
theorem endsInDots_of_last {p : Path} {n : Name} (h : (steps p).getLast? = some (.down n)) :
    endsInDots p = false := by
  by_contra hdots
  rw [Bool.not_eq_false] at hdots
  unfold steps at h
  split at h
  · simp at h
  · rw [List.append_nil, List.getLast?_map] at h
    rcases components_getLast? hdots with hnone | ⟨c, hlast, hc⟩
    · rw [hnone] at h
      exact absurd h (by simp)
    · rw [hlast, Option.map_some, Option.some.injEq] at h
      rcases hc with rfl | rfl <;> exact absurd h (by simp [Step.ofComponent])

/-! ### Walks -/

/-- Every place that a walk leaves is a directory. -/
theorem walk_dirs {d : Disk} {k j : Loc} {ss ts : List Step} {s : Step}
    (h : d.walk k (ss ++ s :: ts) = some j) : d.node (ss.foldl Step.apply k) = some .dir := by
  rw [walk_append] at h
  obtain ⟨m, hm, hrest⟩ := Option.bind_eq_some_iff.mp h
  simp only [walk] at hrest
  split at hrest
  · rw [← walk_eq_foldl hm]
    assumption
  · exact absurd hrest (by simp)

/-- A walk needs the places that it leaves, and nothing else. -/
theorem walk_of_dirs {d : Disk} {k : Loc} {ss : List Step}
    (h : ∀ us s ts, ss = us ++ s :: ts → d.node (us.foldl Step.apply k) = some .dir) :
    d.walk k ss = some (ss.foldl Step.apply k) := by
  induction ss generalizing k with
  | nil => rfl
  | cons s ss ih =>
      have hk : d.node k = some .dir := h [] s ss rfl
      rw [walk, if_pos hk]
      exact ih fun us t ts hss => h (s :: us) t ts (by rw [hss, List.cons_append])

/-- The walk of the path leaves the location at some step. -/
def Crosses (p : Path) (l : Loc) : Prop :=
  ∃ ss s ts, steps p = ss ++ s :: ts ∧ ss.foldl Step.apply [] = l

/-! ### Removing and renaming -/

/-- After a `remove` without an error nothing is left where the path led. -/
theorem remove_gone {d : Disk} {p : Path} {l : Loc} (hl : d.locate p = some l)
    (h : (d.remove p).2 = true) :
    (d.remove p).1.node = Function.update d.node l none ∧
      (d.node l = some .dir → d.children l = []) := by
  unfold remove at h ⊢
  simp only [hl] at h ⊢
  cases hn : d.node l with
  | none => exact ⟨(Function.update_eq_self_iff.mpr hn.symm).symm, by simp⟩
  | some v =>
      simp only [hn] at h ⊢
      split at h
      · exact absurd h (by simp)
      · rename_i hkeep
        simp only [not_or, ne_eq, Decidable.not_not] at hkeep
        rw [if_neg (by simp [hkeep]), detach_node hkeep.2.1 hkeep.2.2]
        exact ⟨rfl, fun _ => hkeep.2.2⟩

/-- An entry that a `remove` leaves was there before. -/
theorem remove_node_some {d : Disk} {p : Path} {k : Loc} {v : Node}
    (h : (d.remove p).1.node k = some v) : d.node k = some v := by
  rcases d.remove_cases p with hsame | ⟨l, -, hne, -, hchildren, hremove⟩
  · rwa [hsame] at h
  · rw [hremove, detach_node hne hchildren] at h
    by_cases hkl : k = l
    · simp [hkl] at h
    · rwa [Function.update_of_ne hkl] at h

/-- A `remove` of what has no entries of its own succeeds, unless the path ends in dots. -/
theorem remove_of_childless {d : Disk} {p : Path} {l : Loc} (hl : d.locate p = some l)
    (hne : l ≠ []) (hdots : endsInDots p = false)
    (hdir : d.node l = some .dir → d.children l = []) : (d.remove p).2 = true := by
  unfold remove
  simp only [hl]
  cases hn : d.node l with
  | none => rfl
  | some v =>
      have hchildren : d.children l = [] := by
        cases v with
        | dir => exact hdir hn
        | file i => exact children_file hn
      simp [hdots, hne, hchildren]

/-- A renaming that succeeds has found its source and resolved both paths. -/
theorem rename_eq_true {d : Disk} {p q : Path} (h : (d.rename p q).2 = true) :
    ∃ src dst, d.locate p = some src ∧ d.locate q = some dst ∧ d.node src ≠ none := by
  unfold rename at h
  split at h
  · rename_i src dst hsrc hdst
    refine ⟨src, dst, hsrc, hdst, fun hn => ?_⟩
    simp [hn] at h
  · exact absurd h (by simp)

/-- A `rename` to a place where nothing is moves the entry, unless a path ends in dots. -/
theorem rename_of_none {d : Disk} {p q : Path} {src dst : Loc} (hsrc : d.locate p = some src)
    (hdst : d.locate q = some dst) (hn : d.node src ≠ none) (hnone : d.node dst = none)
    (hstay : ¬ src <+: dst) (hp : endsInDots p = false) (hq : endsInDots q = false) :
    d.rename p q = ((d.detach dst).move src dst, true) := by
  obtain ⟨v, hv⟩ := Option.ne_none_iff_exists'.mp hn
  have hne : src ≠ dst := fun h => hstay (h ▸ List.prefix_refl src)
  have hreplace : d.replaceable v dst = true := by
    cases v <;> simp [replaceable, hnone]
  unfold rename
  simp [hsrc, hdst, hv, hp, hq, hne, hstay, hreplace]

/-- Two paths that differ in their last name lead into one directory. -/
theorem locate_sibling {d : Disk} {p q : Path} {ss : List Step} {m n : Name} {l : Loc}
    (hp : steps p = ss ++ [.down m]) (hq : steps q = ss ++ [.down n]) (hqne : cString q ≠ [])
    (h : d.locate p = some l) : ∃ k, l = k ++ [m] ∧ d.locate q = some (k ++ [n]) := by
  unfold locate at h ⊢
  rw [if_neg hqne, hq, walk_append]
  split at h
  · exact absurd h (by simp)
  rw [hp, walk_append] at h
  obtain ⟨k, hk, hstep⟩ := Option.bind_eq_some_iff.mp h
  simp only [walk] at hstep
  split at hstep
  · rename_i hdir
    refine ⟨k, (Option.some.inj hstep).symm, ?_⟩
    rw [hk, Option.bind_some, walk, if_pos hdir]
    rfl
  · exact absurd hstep (by simp)

/-- The path lets a new file take its place: it reaches the system call whole, it ends in a name,
its parent is there, and what stands there is not a directory, or one that is empty and not on
the way of the path itself. -/
structure GivesWay (d : Disk) (p : Path) : Prop where
  noNul : nul ∉ p
  endsInName : ∃ n, (steps p).getLast? = some (.down n)
  room : ∃ l, d.locate p = some l ∧
    (d.node l = some .dir → d.children l = [] ∧ ¬ Crosses p l)

/-- A path that resolves is not empty. -/
theorem locate_ne_nil {d : Disk} {p : Path} {l : Loc} (h : d.locate p = some l) :
    cString p ≠ [] := by
  intro hp
  simp [locate, hp] at h

/-- A path that resolves is walked from the root. -/
theorem walk_of_locate {d : Disk} {p : Path} {l : Loc} (h : d.locate p = some l) :
    d.walk [] (steps p) = some l := by
  rwa [locate, if_neg (locate_ne_nil h)] at h

/-- The path is still found when what stood at its end is gone. -/
theorem locate_of_gone {d d' : Disk} {p : Path} {l : Loc} (h : d.locate p = some l)
    (hnode : d'.node = Function.update d.node l none)
    (hcross : d.node l = some .dir → ¬ Crosses p l) : d'.locate p = some l := by
  have hwalk := walk_of_locate h
  rw [locate, if_neg (locate_ne_nil h), walk_eq_foldl hwalk]
  refine walk_of_dirs fun us s ts hsteps => ?_
  rw [hsteps] at hwalk
  have hdir := walk_dirs hwalk
  have hne : us.foldl Step.apply [] ≠ l := by
    intro hl
    exact hcross (hl ▸ hdir) ⟨us, s, ts, hsteps, hl⟩
  rw [hnode, Function.update_of_ne hne, hdir]

/-- A path that is found although nothing is there ends in a name, and its walk does not leave
the place where it ends. -/
theorem last_of_none {d : Disk} {p : Path} {l : Loc} (h : d.locate p = some l)
    (hnone : d.node l = none) : ¬ Crosses p l ∧
      ∀ ss t, steps p = ss ++ [t] → ∃ m, t = .down m := by
  have hwalk := walk_of_locate h
  constructor
  · rintro ⟨us, s, ts, hsteps, rfl⟩
    rw [hsteps] at hwalk
    rw [walk_dirs hwalk] at hnone
    exact absurd hnone (by simp)
  · intro ss t hsteps
    rw [hsteps] at hwalk
    have hlast : ∀ s, s = .stay ∨ s = .up → t ≠ s := by
      rintro s hs rfl
      rw [walk_last_dir hs hwalk] at hnone
      exact absurd hnone (by simp)
    cases t with
    | stay => exact absurd rfl (hlast _ (Or.inl rfl))
    | up => exact absurd rfl (hlast _ (Or.inr rfl))
    | down m => exact ⟨m, rfl⟩

/-- The two places of a replacement, and what the tree is like once the old file is gone. -/
structure Replacing (d : Disk) (p q : Path) (src dst : Loc) : Prop where
  removed : (d.remove p).2 = true
  node : (d.remove p).1.node = Function.update d.node dst none
  source : (d.remove p).1.locate q = some src
  target : (d.remove p).1.locate p = some dst
  apart : ¬ src <+: dst
  dots : endsInDots q = false ∧ endsInDots p = false

/-- Once the old entry is removed its place is free. -/
theorem Replacing.target_none {d : Disk} {p q : Path} {src dst : Loc}
    (h : d.Replacing p q src dst) : (d.remove p).1.node dst = none := by
  rw [h.node, Function.update_self]

/-- The removal of the old entry leaves the new one where it is. -/
theorem Replacing.source_node {d : Disk} {p q : Path} {src dst : Loc}
    (h : d.Replacing p q src dst) : (d.remove p).1.node src = d.status q := by
  have hne : src ≠ dst := fun heq => h.apart (heq ▸ List.prefix_refl src)
  have hsrc := locate_mono (fun k hk => remove_node_some hk) h.source
  rw [h.node, Function.update_of_ne hne, status, hsrc, Option.bind_some]

/-- Renaming the second file moves it to the place of the first. -/
theorem Replacing.rename {d : Disk} {p q : Path} {src dst : Loc} (h : d.Replacing p q src dst)
    (hstatus : d.status q ≠ none) : (d.remove p).1.rename q p =
      (((d.remove p).1.detach dst).move src dst, true) :=
  rename_of_none h.source h.target (h.source_node ▸ hstatus) h.target_none h.apart h.dots.1 h.dots.2

/-- Where a path gives way, the entry beside it can take its place. -/
theorem GivesWay.replacing {d : Disk} {p s : Path} (hs : sep ∉ s ∧ nul ∉ s ∧ 2 < s.length)
    (h : d.GivesWay p) : ∃ src dst, d.Replacing p (p ++ s) src dst := by
  obtain ⟨hnul, ⟨m, hlast⟩, l, hl, hroom⟩ := h
  have hsne : s ≠ [] := by
    rintro rfl
    exact absurd hs.2.2 (by simp)
  obtain ⟨ss, n, hsuffix, hp⟩ := steps_append_suffix hnul hs
  rcases hp with rfl | ⟨t, hsteps, hextend⟩
  · exact absurd rfl (locate_ne_nil hl)
  obtain rfl : t = .down m := by
    rw [hsteps, List.getLast?_concat] at hlast
    exact Option.some.inj hlast
  obtain rfl := hextend m rfl
  have hqne : cString (p ++ s) ≠ [] := by
    rw [cString_of_notMem (by simp [hnul, hs.2.1])]
    simp [hsne]
  have hqlast : (steps (p ++ s)).getLast? = some (.down (m.extend s hs)) := by
    rw [hsuffix, List.getLast?_concat]
  obtain ⟨k, rfl, -⟩ := locate_sibling hsteps hsuffix hqne hl
  have hremove := remove_of_childless hl (by simp) (endsInDots_of_last hlast) fun h => (hroom h).1
  obtain ⟨hnode, -⟩ := remove_gone hl hremove
  have hdst := locate_of_gone hl hnode fun h => (hroom h).2
  obtain ⟨k', hk', hsrc⟩ := locate_sibling hsteps hsuffix hqne hdst
  obtain rfl : k = k' := List.append_cancel_right hk'
  refine ⟨_, _, hremove, hnode, hsrc, hdst, fun hbelow => ?_, endsInDots_of_last hqlast,
    endsInDots_of_last hlast⟩
  -- The two places differ in their last name, so neither is above the other.
  have heq := List.append_cancel_left (hbelow.eq_of_length (by simp))
  have hname : m.1 ++ s = m.1 := congrArg Subtype.val (List.singleton_inj.mp heq)
  exact hsne (List.append_right_eq_self.mp hname)

/-- Both calls succeed exactly when the path gives way and the second path names something. -/
theorem replace_iff {d : Disk} {p s : Path} (hs : sep ∉ s ∧ nul ∉ s ∧ 2 < s.length) :
    ((d.remove p).2 = true ∧ ((d.remove p).1.rename (p ++ s) p).2 = true) ↔
      d.GivesWay p ∧ d.status (p ++ s) ≠ none := by
  constructor
  · rintro ⟨hremove, hrename⟩
    obtain ⟨src, dst, hsrc, hdst, hn⟩ := rename_eq_true hrename
    -- What the rename finds was found before. At the path itself it is gone.
    have hl : d.locate p = some dst := locate_mono (fun k hk => remove_node_some hk) hdst
    obtain ⟨hnode, hdir⟩ := remove_gone hl hremove
    have hnone : (d.remove p).1.node dst = none := by rw [hnode, Function.update_self]
    have hstatus : d.status (p ++ s) ≠ none := by
      obtain ⟨v, hv⟩ := Option.ne_none_iff_exists'.mp hn
      have hsrc' := locate_mono (fun k hk => remove_node_some hk) hsrc
      rw [status_eq_some.mpr ⟨src, hsrc', remove_node_some hv⟩]
      simp
    have hnul : nul ∉ p := by
      intro hmem
      -- The system calls would see one path, and nothing is there to be renamed.
      have hsame : (d.remove p).1.locate (p ++ s) = (d.remove p).1.locate p := by
        unfold locate steps
        rw [cString_append_of_mem hmem]
      rw [hsame, hdst] at hsrc
      exact hn (Option.some.inj hsrc ▸ hnone)
    obtain ⟨hcross, hlast⟩ := last_of_none hdst hnone
    refine ⟨⟨hnul, ?_, dst, hl, fun h => ⟨hdir h, hcross⟩⟩, hstatus⟩
    obtain ⟨ss, n, -, hp⟩ := steps_append_suffix hnul hs
    rcases hp with rfl | ⟨t, hsteps, -⟩
    · exact absurd rfl (locate_ne_nil hl)
    · obtain ⟨m, rfl⟩ := hlast ss t hsteps
      exact ⟨m, by rw [hsteps, List.getLast?_concat]⟩
  · rintro ⟨hway, hstatus⟩
    obtain ⟨src, dst, h⟩ := hway.replacing hs
    exact ⟨h.removed, by rw [h.rename hstatus]⟩

/-- Every entry after the replacement has moved with the second file, or has stayed. -/
theorem Replacing.moved_node {d : Disk} {p q : Path} {src dst : Loc} (h : d.Replacing p q src dst)
    (hstatus : d.status q ≠ none) :
    ((d.remove p).1.rename q p).1.node = moved (d.remove p).1.node src dst := by
  have hdetach := detach_node_none h.target_none
  have hfree : ((d.remove p).1.detach dst).Free dst := by
    unfold Free
    rw [hdetach]
    exact locate_free h.target h.target_none
  rw [h.rename hstatus, move_node hfree (fun heq => h.apart (by rw [heq]; exact List.nil_prefix))
    h.apart, hdetach]

/-- What stands at the place of the first file is what stood at that of the second. -/
theorem Replacing.moved_target {d : Disk} {p q : Path} {src dst : Loc}
    (h : d.Replacing p q src dst) (hstatus : d.status q ≠ none) :
    ((d.remove p).1.rename q p).1.node dst = d.status q := by
  rw [h.moved_node hstatus, moved, if_pos (List.prefix_refl _), List.drop_length, List.append_nil,
    h.source_node]

/-- A walk that comes below a place has been there. -/
theorem passes_of_below {ss : List Step} {l : Loc} (hl : l ≠ [])
    (h : l <+: ss.foldl Step.apply []) :
    ∃ us ts, ss = us ++ ts ∧ us.foldl Step.apply [] = l := by
  induction ss using List.reverseRecOn with
  | nil => exact absurd (List.prefix_nil.mp h) hl
  | append_singleton ss s ih =>
      rw [List.foldl_append, List.foldl_cons, List.foldl_nil] at h
      by_cases hbefore : l <+: ss.foldl Step.apply []
      · obtain ⟨us, ts, rfl, hus⟩ := ih hbefore
        exact ⟨us, ts ++ [s], by rw [List.append_assoc], hus⟩
      · -- The last step is the one that leads there.
        refine ⟨ss ++ [s], [], by rw [List.append_nil], ?_⟩
        rw [List.foldl_append, List.foldl_cons, List.foldl_nil]
        cases s with
        | stay => exact absurd h hbefore
        | up => exact absurd (h.trans (List.dropLast_prefix _)) hbefore
        | down n => exact ((List.prefix_concat_iff.mp h).resolve_right hbefore).symm

/-- The path still leads to its place, unless it leads through the second one. -/
theorem Replacing.locate_of_not_crosses {d : Disk} {p q : Path} {src dst : Loc}
    (h : d.Replacing p q src dst) (hstatus : d.status q ≠ none) (hcross : ¬ Crosses p src) :
    ((d.remove p).1.rename q p).1.locate p = some dst := by
  have hwalk := walk_of_locate h.target
  have hsrc : src ≠ [] := fun heq => h.apart (by rw [heq]; exact List.nil_prefix)
  rw [locate, if_neg (locate_ne_nil h.target), walk_of_dirs (fun us t ts hsteps => ?_),
    ← walk_eq_foldl hwalk]
  rw [hsteps] at hwalk
  have hdir := walk_dirs hwalk
  -- A directory on the way is neither below the place that is free nor below the one that moves.
  have hdst : ¬ dst <+: us.foldl Step.apply [] := by
    intro hbelow
    by_cases heq : dst = us.foldl Step.apply []
    · rw [← heq, h.target_none] at hdir
      cases hdir
    · have hnone := dir_of_prefix (d.remove p).1 hbelow heq (by rw [hdir]; simp)
      rw [h.target_none] at hnone
      cases hnone
  have hsrc' : ¬ src <+: us.foldl Step.apply [] := by
    intro hbelow
    obtain ⟨us', ts', rfl, hus⟩ := passes_of_below hsrc hbelow
    rw [List.append_assoc] at hsteps
    obtain ⟨x, xs, hxs⟩ := List.exists_cons_of_ne_nil
      (show ts' ++ t :: ts ≠ [] by simp)
    exact hcross ⟨us', x, xs, by rw [hsteps, hxs], hus⟩
  rw [h.moved_node hstatus, moved, if_neg hdst, if_neg hsrc', hdir]

/-- After the replacement the path names a file, unless the second path named a directory. -/
theorem replaced_read_iff {d : Disk} {p s : Path} (hs : sep ∉ s ∧ nul ∉ s ∧ 2 < s.length)
    (hway : d.GivesWay p) (hstatus : d.status (p ++ s) ≠ none) :
    ((d.remove p).1.rename (p ++ s) p).1.read p ≠ none ↔ d.status (p ++ s) ≠ some .dir := by
  obtain ⟨src, dst, h⟩ := hway.replacing hs
  obtain ⟨v, hv⟩ := Option.ne_none_iff_exists'.mp hstatus
  have htarget := (h.moved_target hstatus).trans hv
  cases v with
  | dir =>
      rw [hv]
      simp only [ne_eq, not_true_eq_false, iff_false, not_not]
      rw [Option.eq_none_iff_forall_ne_some]
      intro bytes hread
      obtain ⟨i, hfile, -⟩ := read_eq_some.mp hread
      obtain ⟨l, hl, hi⟩ := status_eq_some.mp hfile
      obtain rfl : l = dst := (locate_eq_denote hl).trans (locate_eq_denote h.target).symm
      rw [htarget] at hi
      cases hi
  | file i =>
      -- A path does not lead through a file.
      have hcross : ¬ Crosses p src := by
        rintro ⟨us, t, ts, hsteps, rfl⟩
        have hwalk := walk_of_locate h.target
        rw [hsteps] at hwalk
        have hdir := walk_dirs hwalk
        rw [h.source_node, hv] at hdir
        cases hdir
      have hfile := status_eq_some.mpr ⟨dst, h.locate_of_not_crosses hstatus hcross, htarget⟩
      rw [read_eq_some.mpr ⟨i, hfile, rfl⟩, hv]
      simp

/-- The path names a directory that cannot be removed. -/
def Stays (d : Disk) (p : Path) : Prop := d.status p = some .dir ∧ (d.remove p).2 = false

/-- A directory stays when its path ends in dots, it is the root or it is not empty. -/
theorem stays_iff {d : Disk} {p : Path} : d.Stays p ↔ ∃ l, d.locate p = some l ∧
    d.node l = some .dir ∧ (endsInDots p = true ∨ l = [] ∨ d.children l ≠ []) := by
  unfold Stays
  rw [status_eq_some]
  constructor
  · rintro ⟨⟨l, hl, hnode⟩, hstays⟩
    refine ⟨l, hl, hnode, ?_⟩
    by_contra hnot
    simp [remove, hl, hnode, hnot] at hstays
  · rintro ⟨l, hl, hnode, hwhy⟩
    exact ⟨⟨l, hl, hnode⟩, by simp [remove, hl, hnode, hwhy]⟩

/-- Whether there are children is read off the entries. -/
theorem children_of_node {d d' : Disk} (h : d'.node = d.node) (l : Loc) :
    d'.children l = [] ↔ d.children l = [] := by
  rw [children_eq_nil_iff, children_eq_nil_iff, h]

/-- Only the entries of a tree matter. -/
theorem stays_of_node {d d' : Disk} {p : Path} (h : d'.node = d.node) :
    d'.Stays p ↔ d.Stays p := by
  have hlocate : d'.locate p = d.locate p := locate_of_dirs (fun k => by rw [h]) p
  simp only [stays_iff, hlocate, h, ne_eq, children_of_node h]

/-- A directory is not opened for appending, so the call changes nothing about it. -/
theorem stays_openAppend (d : Disk) (p : Path) : (d.openAppend p).1.Stays p ↔ d.Stays p := by
  by_cases hdir : d.status p = some .dir
  · obtain ⟨l, hl, hnode⟩ := status_eq_some.mp hdir
    rw [show d.openAppend p = (d, none) by simp [openAppend, hl, hnode]]
  · exact iff_of_false (fun h => hdir ((d.openAppend_status_dir p p).mp h.1)) fun h => hdir h.1

/-- The second path names a directory that is not empty, and the first does not lead through
it. -/
def Occupied (d : Disk) (p q : Path) : Prop :=
  ∃ l, d.locate q = some l ∧ d.node l = some .dir ∧ d.children l ≠ [] ∧ ¬ Crosses p l

/-- The directory that has moved is as empty as it was. -/
theorem Replacing.children_iff {d : Disk} {p q : Path} {src dst : Loc}
    (h : d.Replacing p q src dst) (hstatus : d.status q ≠ none) :
    ((d.remove p).1.rename q p).1.children dst = [] ↔ d.children src = [] := by
  have hentry : ∀ n, ((d.remove p).1.rename q p).1.node (dst ++ [n]) = d.node (src ++ [n]) := by
    intro n
    have hne : src ++ [n] ≠ dst := fun heq => h.apart (heq ▸ List.prefix_append src [n])
    rw [h.moved_node hstatus, moved, if_pos (List.prefix_append _ _), List.drop_left, h.node,
      Function.update_of_ne hne]
  rw [children_eq_nil_iff, children_eq_nil_iff]
  constructor
  · intro hnone k hk hkl
    rw [← List.dropLast_append_getLast hk, hkl, ← hentry]
    exact hnone _ (by simp) List.dropLast_concat
  · intro hnone k hk hkl
    rw [← List.dropLast_append_getLast hk, hkl, hentry]
    exact hnone _ (by simp) List.dropLast_concat

/-- The path does not lead through a place that is free. -/
theorem Replacing.source_free {d : Disk} {p q : Path} {src dst : Loc}
    (h : d.Replacing p q src dst) (hstatus : d.status q ≠ none) :
    ((d.remove p).1.rename q p).1.node src = none := by
  have hnot : ¬ dst <+: src := by
    intro hbelow
    have hne : dst ≠ src := fun heq => h.apart (heq ▸ List.prefix_refl src)
    have hdir := dir_of_prefix (d.remove p).1 hbelow hne (h.source_node ▸ hstatus)
    rw [h.target_none] at hdir
    cases hdir
  rw [h.moved_node hstatus, moved, if_neg hnot, if_pos (List.prefix_refl _)]

/-- After the replacement the path names a directory that cannot be removed exactly when the
second path named one. -/
theorem replaced_stays_iff {d : Disk} {p s : Path} (hs : sep ∉ s ∧ nul ∉ s ∧ 2 < s.length)
    (hway : d.GivesWay p) (hstatus : d.status (p ++ s) ≠ none) :
    ((d.remove p).1.rename (p ++ s) p).1.Stays p ↔ d.Occupied p (p ++ s) := by
  obtain ⟨src, dst, h⟩ := hway.replacing hs
  have htarget := h.moved_target hstatus
  have hsource : d.locate (p ++ s) = some src := locate_mono (fun k => remove_node_some) h.source
  have hstands : d.status (p ++ s) = d.node src := by rw [status, hsource, Option.bind_some]
  have hdst : dst ≠ [] := by
    rintro rfl
    have hroot := (d.remove p).1.root_dir
    rw [h.target_none] at hroot
    cases hroot
  constructor
  · rintro ⟨hdir, hstays⟩
    obtain ⟨l, hl, hnode⟩ := status_eq_some.mp hdir
    obtain rfl : l = dst := (locate_eq_denote hl).trans (locate_eq_denote h.target).symm
    refine ⟨src, hsource, by rw [← hstands, ← htarget, hnode], fun hempty => ?_, ?_⟩
    · have hremove := remove_of_childless hl hdst h.dots.2
        fun _ => (h.children_iff hstatus).mpr hempty
      rw [hremove] at hstays
      cases hstays
    · rintro ⟨us, t, ts, hsteps, rfl⟩
      have hwalk := walk_of_locate hl
      rw [hsteps] at hwalk
      have hon := walk_dirs hwalk
      rw [h.source_free hstatus] at hon
      cases hon
  · rintro ⟨l, hl, hnode, hfull, hcross⟩
    obtain rfl : l = src := Option.some.inj (hl.symm.trans hsource)
    have hlocate := h.locate_of_not_crosses hstatus hcross
    rw [hstands, hnode] at htarget
    refine ⟨status_eq_some.mpr ⟨dst, hlocate, htarget⟩, ?_⟩
    by_contra hremove
    rw [Bool.not_eq_false] at hremove
    exact hfull ((h.children_iff hstatus).mp ((remove_gone hlocate hremove).2 htarget))

/-- Only the entries of a tree matter. -/
theorem occupied_of_node {d d' : Disk} {p q : Path} (h : d'.node = d.node) :
    d'.Occupied p q ↔ d.Occupied p q := by
  have hlocate : d'.locate q = d.locate q := locate_of_dirs (fun k => by rw [h]) q
  simp only [Occupied, hlocate, h, ne_eq, children_of_node h]

/-- Where the second path names a directory, opening it changes nothing. -/
theorem occupied_openAppend (d : Disk) (p q : Path) :
    (d.openAppend q).1.Occupied p q ↔ d.Occupied p q := by
  have hdir : ∀ {e : Disk}, e.Occupied p q → e.status q = some .dir := by
    rintro e ⟨l, hl, hnode, -⟩
    exact status_eq_some.mpr ⟨l, hl, hnode⟩
  by_cases hstatus : d.status q = some .dir
  · obtain ⟨l, hl, hnode⟩ := status_eq_some.mp hstatus
    rw [show d.openAppend q = (d, none) by simp [openAppend, hl, hnode]]
  · exact iff_of_false (fun h => hstatus ((d.openAppend_status_dir q q).mp (hdir h)))
      fun h => hstatus (hdir h)

/-! ### Opening the second file -/

/-- Two trees with the same directories, and the same entries in the directory that a path leads
to, agree on whether the path gives way. -/
theorem givesWay_congr {d d' : Disk} {p : Path}
    (hdir : ∀ k, d'.node k = some .dir ↔ d.node k = some .dir)
    (hbelow : (∃ m, (steps p).getLast? = some (.down m)) →
      ∀ k, k ≠ [] → d.locate p = some k.dropLast → d'.node k = d.node k) :
    d'.GivesWay p ↔ d.GivesWay p := by
  have hlocate : d'.locate p = d.locate p := locate_of_dirs hdir p
  have hchildren : (∃ m, (steps p).getLast? = some (.down m)) → ∀ l, d.locate p = some l →
      (d'.children l = [] ↔ d.children l = []) := by
    intro hlast l hl
    rw [children_eq_nil_iff, children_eq_nil_iff]
    refine forall_congr' fun k => imp_congr_right fun hk => imp_congr_right fun hkl => ?_
    rw [hbelow hlast k hk (hkl ▸ hl)]
  constructor
  · rintro ⟨hnul, hlast, l, hl, hroom⟩
    rw [hlocate] at hl
    refine ⟨hnul, hlast, l, hl, fun h => ?_⟩
    obtain ⟨hempty, hcross⟩ := hroom ((hdir l).mpr h)
    exact ⟨(hchildren hlast l hl).mp hempty, hcross⟩
  · rintro ⟨hnul, hlast, l, hl, hroom⟩
    refine ⟨hnul, hlast, l, hlocate ▸ hl, fun h => ?_⟩
    obtain ⟨hempty, hcross⟩ := hroom ((hdir l).mp h)
    exact ⟨(hchildren hlast l hl).mpr hempty, hcross⟩

/-- Only the entries of a tree matter. -/
theorem givesWay_of_node {d d' : Disk} {p : Path} (h : d'.node = d.node) :
    d'.GivesWay p ↔ d.GivesWay p :=
  givesWay_congr (fun k => by rw [h]) fun _ k _ _ => by rw [h]

/-- What a path names is read off the entries. -/
theorem status_of_node {d d' : Disk} {p : Path} (h : d'.node = d.node) :
    d'.status p = d.status p := by
  have hlocate : d'.locate p = d.locate p := locate_of_dirs (fun k => by rw [h]) p
  rw [status, status, hlocate, h]

/-- A path that gives way leads to a place beside which the second file can stand. -/
theorem GivesWay.openAppend_status {d : Disk} {p s : Path}
    (hs : sep ∉ s ∧ nul ∉ s ∧ 2 < s.length) (h : d.GivesWay p) :
    (d.openAppend (p ++ s)).1.status (p ++ s) ≠ none := by
  obtain ⟨src, dst, hreplacing⟩ := h.replacing hs
  have hsrc := locate_mono (fun k hk => remove_node_some hk) hreplacing.source
  unfold openAppend
  rw [hsrc]
  cases hn : d.node src with
  | none =>
      simp only [hn]
      rw [status_addFile hsrc (locate_free hsrc hn)]
      simp
  | some v => cases v <;> simp [hn, status, hsrc]

/-- The second file stands beside the first, so opening it takes no room away. -/
theorem givesWay_openAppend {d : Disk} {p s : Path} (hs : sep ∉ s ∧ nul ∉ s ∧ 2 < s.length) :
    (d.openAppend (p ++ s)).1.GivesWay p ↔ d.GivesWay p := by
  rcases d.openAppend_cases (p ++ s) with h | ⟨l, i, -, -, h⟩ | ⟨l, hl, hfree, h⟩
  · rw [h]
  · rw [h]
  -- Only a new file is of interest.
  have hnode := addFile_node hfree
  rw [h]
  by_cases hnul : nul ∈ p
  · exact ⟨fun h => absurd hnul h.noNul, fun h => absurd hnul h.noNul⟩
  have hdirs := d.openAppend_dir_iff (p ++ s)
  rw [h] at hdirs
  refine givesWay_congr hdirs fun hlast k hk hkl => ?_
  obtain ⟨m, hlast⟩ := hlast
  obtain ⟨ss, n, hsuffix, hp⟩ := steps_append_suffix hnul hs
  have hne : k ≠ l := by
    rintro rfl
    rcases hp with rfl | ⟨t, hsteps, -⟩
    · exact locate_ne_nil hkl rfl
    -- The new file and what the path leads to hang in one directory.
    obtain rfl : t = .down m := by
      rw [hsteps, List.getLast?_concat] at hlast
      exact Option.some.inj hlast
    obtain ⟨k', hk', hl'⟩ := locate_sibling hsteps hsuffix (locate_ne_nil hl) hkl
    rw [hl', Option.some.injEq] at hl
    rw [← hl, List.dropLast_concat] at hk'
    exact absurd (congrArg List.length hk') (by simp)
  rw [hnode, Function.update_of_ne hne]

/-! ### The files that stand elsewhere -/

/-- The files that stand at none of these places are the same in both trees. -/
def SameBut (ls : List Loc) (d e : Disk) : Prop :=
  ∀ k i, k ∉ ls → (e.node k = some (.file i) ↔ d.node k = some (.file i)) ∧
    (d.node k = some (.file i) → e.content i = d.content i)

/-- A disk is the same everywhere. -/
theorem SameBut.refl (ls : List Loc) (d : Disk) : SameBut ls d d :=
  fun _ _ _ => ⟨Iff.rfl, fun _ => rfl⟩

/-- Two steps that keep all but these places keep it together. -/
theorem SameBut.trans {ls : List Loc} {d e f : Disk} (h : SameBut ls d e) (h' : SameBut ls e f) :
    SameBut ls d f := by
  intro k i hk
  obtain ⟨hnode, hcontent⟩ := h k i hk
  obtain ⟨hnode', hcontent'⟩ := h' k i hk
  exact ⟨hnode'.trans hnode, fun hi => (hcontent' (hnode.mpr hi)).trans (hcontent hi)⟩

end Disk

end RemoteBackup.Lib
