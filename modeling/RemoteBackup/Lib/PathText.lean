import Mathlib.Data.List.DropRight
import Mathlib.Tactic.Common

/-!
# `RemoteBackup.Lib.PathText`: path strings and the places they name

A path is a byte string. Three readers look at one. The operating system stops at the
first NUL, cuts what is left at separators, and walks the components (`steps`, `denote`).
Boost.Filesystem appends and cuts paths as text (`append`, `parentPath`) and compares them
by their elements (`elements`). This module defines the three readings on POSIX and
relates them.

* `append_toPath`, `steps_toPath_append`: appending `p` to the text of a location puts the steps
  of `p` behind the names of the location.
* `parentPath_toPath_append`: cutting the last element of a text below a location drops at most
  one step. This is what a loop over `parent_path()` needs.
* `denote_toPath`: the text of a location denotes the location.
* `parentPath_length_lt`: cutting the last element shortens a text, so such a loop ends.

Paths with a root name (`//host/...`) never reach the operating system below an absolute
location. Only `elements` treats them apart.
-/

set_option autoImplicit false

namespace RemoteBackup.Lib

/-- A byte string: the contents of a `std::string`, of a buffer or of a file. -/
abbrev Bytes := List UInt8

/-- A path as Boost.Filesystem stores it on POSIX: the string it was made from. -/
abbrev Path := Bytes

/-- The separator `/`. -/
def sep : UInt8 := 47

/-- The byte that ends a C string. -/
def nul : UInt8 := 0

/-- The byte `.`. -/
def dot : UInt8 := 46

/-- The bytes of a string of ASCII characters. -/
def ascii (s : String) : Bytes := s.toList.map (fun c => UInt8.ofNat c.toNat)

/-! ### Names, locations, steps -/

/-- A byte string that can name a directory entry. -/
def Plain (s : Bytes) : Prop := s ≠ [] ∧ s ≠ [dot] ∧ s ≠ [dot, dot] ∧ sep ∉ s ∧ nul ∉ s

/-- Whether a component is plain is read off its bytes. -/
instance (s : Bytes) : Decidable (Plain s) := by unfold Plain; infer_instance

/-- The name of a directory entry. -/
def Name := { s : Bytes // Plain s }

/-- Names are compared as bytes. -/
instance : DecidableEq Name := inferInstanceAs (DecidableEq { s : Bytes // Plain s })

/-- A place in the tree: the names from the root down. -/
abbrev Loc := List Name

/-- One component of a path string: `.`, `..` or a name. -/
inductive Step where
  | stay
  | up
  | down (n : Name)
  deriving DecidableEq

/-- Where a step leads. The root is its own parent. -/
def Step.apply (l : Loc) : Step → Loc
  | .stay => l
  | .up => l.dropLast
  | .down n => l ++ [n]

/-- The step a component stands for. A component of a C string is `.`, `..` or plain, so
the last branch is never taken on one. -/
def Step.ofComponent (s : Bytes) : Step :=
  if s = [dot] then .stay
  else if s = [dot, dot] then .up
  else if h : Plain s then .down ⟨s, h⟩
  else .stay

/-- A name is a step down. -/
theorem Step.ofComponent_name (n : Name) : Step.ofComponent n.1 = .down n := by
  obtain ⟨s, h⟩ := n
  simp [Step.ofComponent, h, h.2.1, h.2.2.1]

/-! ### What the operating system reads -/

/-- The part of a path that a system call sees: everything before the first NUL. -/
def cString (p : Path) : Path := p.takeWhile (fun b => b ≠ nul)

/-- The non-empty components of a path, left to right. -/
def components (p : Path) : List Bytes := (p.splitOn sep).filter (fun s => s ≠ [])

/-- The steps of a path. A trailing separator asks for a directory, which is what a
trailing `.` asks for. -/
def steps (p : Path) : List Step :=
  (components (cString p)).map Step.ofComponent ++
    if (cString p).getLast? = some sep then [.stay] else []

/-- The place a path denotes when nothing on the way is a symbolic link. -/
def denote (p : Path) : Loc := (steps p).foldl Step.apply []

/-! ### What Boost.Filesystem computes on the text -/

/-- `operator/`: the right operand is appended, behind a separator when neither side
brings one. -/
def append (p q : Path) : Path :=
  if q = [] then p
  else if q.head? = some sep ∨ p = [] ∨ p.getLast? = some sep then p ++ q
  else p ++ sep :: q

/-- `parent_path()`: cut the file name, then the separators before it, but not the root
directory. The file name of a path that ends in a separator is that separator. -/
def parentPath (p : Path) : Path :=
  let stem := p.rdropWhile (fun b => b ≠ sep)
  let parent := stem.rdropWhile (fun b => b = sep)
  if parent = [] ∧ stem ≠ [] ∧ stem ≠ p then [sep] else parent

/-- The elements behind the root of a path: the names, and `.` for a trailing
separator. -/
def relativeElements (p : Path) : List Bytes :=
  components p ++ if components p ≠ [] ∧ p.getLast? = some sep then [[dot]] else []

/-- The elements of a path, which `operator==` compares: an optional root name `//host`,
an optional root directory, and the rest. -/
def elements : Path → List Bytes
  | [] => []
  | [a] => if a = sep then [[sep]] else [[a]]
  | a :: b :: p =>
      if a = sep ∧ b = sep ∧ p.head? ≠ some sep then
        let host := p.takeWhile (fun c => c ≠ sep)
        let rest := p.dropWhile (fun c => c ≠ sep)
        (sep :: sep :: host) ::
          if host = [] then []
          else if rest = [] then [] else [sep] :: relativeElements rest
      else if a = sep then [sep] :: relativeElements (b :: p)
      else relativeElements (a :: b :: p)

/-- The text of a location. -/
def toPath (l : Loc) : Path := if l = [] then [sep] else l.flatMap (fun n => sep :: n.1)

example : denote (ascii "/a/./b//../c/") = [⟨ascii "a", by decide⟩, ⟨ascii "c", by decide⟩] := by
  decide

example : parentPath (ascii "/a//b") = ascii "/a" ∧ parentPath (ascii "/a/") = ascii "/a" ∧
    parentPath (ascii "/a") = ascii "/" := by
  decide

example : elements (ascii "/a//b/") = [ascii "/", ascii "a", ascii "b", ascii "."] := by decide

/-! ### Components -/

/-- The empty path has no components. -/
theorem components_nil : components [] = [] := by decide

/-- A separator splits the components of the two sides. -/
theorem components_append_sep (p q : Path) :
    components (p ++ sep :: q) = components p ++ components q := by
  simp [components, List.splitOn, List.splitOnP_append_cons]

/-- A separator in front adds no component. -/
theorem components_sep_cons (p : Path) : components (sep :: p) = components p := by
  simpa [components_nil] using components_append_sep [] p

/-- A string without a separator is its own only component. -/
theorem components_of_sep_notMem {s : Bytes} (hs : sep ∉ s) (h : s ≠ []) :
    components s = [s] := by
  have hsplit : s.splitOn sep = [s] := by
    have hall : ∀ l ∈ [s], sep ∉ l := by
      intro l hl
      rw [List.mem_singleton.mp hl]
      exact hs
    simpa using List.splitOn_intercalate sep hall (by simp)
  simp [components, hsplit, h]

/-- A plain name in front of a text that is empty or starts with a separator is one
component. -/
theorem components_name_append (n : Name) {p : Path} (hp : p = [] ∨ p.head? = some sep) :
    components (n.1 ++ p) = n.1 :: components p := by
  have hn : components n.1 = [n.1] := components_of_sep_notMem n.2.2.2.2.1 n.2.1
  rcases hp with rfl | hp
  · simp [hn, components_nil]
  · obtain ⟨q, rfl⟩ : ∃ q, p = sep :: q := by
      cases p with
      | nil => simp at hp
      | cons b q => exact ⟨q, by simpa using hp⟩
    rw [components_append_sep, components_sep_cons, hn, List.singleton_append]

/-! ### C strings -/

/-- Up to its first NUL, a path goes on behind a part without one. -/
theorem cString_append {p : Path} (hp : nul ∉ p) (q : Path) :
    cString (p ++ q) = p ++ cString q := by
  have hall : ∀ b ∈ p, decide (b ≠ nul) = true := by
    intro b hb
    simpa using fun h : b = nul => hp (h ▸ hb)
  exact List.takeWhile_append_of_pos hall

/-- What comes behind a NUL is not read. -/
theorem cString_append_of_mem {p : Path} (hp : nul ∈ p) (q : Path) :
    cString (p ++ q) = cString p := by
  induction p with
  | nil => simp at hp
  | cons b p ih =>
      by_cases hb : b = nul
      · simp [cString, hb]
      · have hp' : nul ∈ p := by
          rcases List.mem_cons.mp hp with h | h
          · exact absurd h.symm hb
          · exact h
        simpa [cString, hb] using ih hp'

/-- A path without NUL is read to its end. -/
theorem cString_of_notMem {p : Path} (hp : nul ∉ p) : cString p = p := by
  simpa [cString] using cString_append hp []

/-- A separator is no NUL. -/
theorem sep_ne_nul : sep ≠ nul := by decide

/-- A separator in front is read. -/
theorem cString_sep_cons (p : Path) : cString (sep :: p) = sep :: cString p := by
  simp [cString, sep_ne_nul]

/-- Cutting a path at a NUL brings no separator. -/
theorem sep_notMem_cString {p : Path} (hp : sep ∉ p) : sep ∉ cString p :=
  fun h => hp ((List.takeWhile_prefix _).subset h)

/-! ### The text of a location -/

/-- The text of a location below the root: a separator in front of each name. -/
theorem toPath_of_ne_nil {l : Loc} (hl : l ≠ []) : toPath l = l.flatMap (fun n => sep :: n.1) := by
  simp [toPath, hl]

/-- One more name comes behind one more separator. -/
theorem toPath_concat (l : Loc) (n : Name) :
    toPath (l ++ [n]) = (if l = [] then [] else toPath l) ++ sep :: n.1 := by
  by_cases hl : l = []
  · simp [toPath, hl]
  · simp [toPath, hl, List.flatMap_append]

/-- The text of a location has no NUL. -/
theorem nul_notMem_toPath (l : Loc) : nul ∉ toPath l := by
  unfold toPath
  split
  · decide
  · intro h
    obtain ⟨n, -, hn⟩ := List.mem_flatMap.mp h
    rcases List.mem_cons.mp hn with h0 | h0
    · exact sep_ne_nul h0.symm
    · exact n.2.2.2.2.2 h0

/-- A system call sees the whole text. -/
theorem cString_toPath (l : Loc) : cString (toPath l) = toPath l :=
  cString_of_notMem (nul_notMem_toPath l)

/-- The text of a location below the root ends in a name, not in a separator. -/
theorem getLast?_toPath {l : Loc} (hl : l ≠ []) : (toPath l).getLast? ≠ some sep := by
  obtain ⟨l, n, rfl⟩ := l.eq_nil_or_concat'.resolve_left hl
  rw [toPath_concat, List.getLast?_append, List.getLast?_cons, Option.some_or]
  have hn : n.1 ≠ [] := n.2.1
  rw [List.getLast?_eq_some_getLast hn, Option.getD_some]
  exact fun h => n.2.2.2.2.1 (Option.some.inj h ▸ List.getLast_mem hn)

/-- Each name takes a byte at least. -/
theorem length_le_toPath (l : Loc) : l.length ≤ (toPath l).length := by
  unfold toPath
  split
  · rename_i hl
    simp [hl]
  · induction l with
    | nil => simp
    | cons n l ih =>
        rw [List.flatMap_cons, List.length_append, List.length_cons, List.length_cons]
        by_cases hl : l = []
        · simp [hl]
        · have htail := ih hl
          omega

/-- The text of a location is not empty: that of the root is a separator. -/
theorem toPath_ne_nil (l : Loc) : toPath l ≠ [] := by
  unfold toPath
  split
  · simp
  · rename_i hl
    cases l with
    | nil => exact absurd rfl hl
    | cons n l => simp

/-- The components of a text below a location: the names of the location, then the
components of the rest. -/
theorem components_toPath_append {l : Loc} (hl : l ≠ []) {p : Path}
    (hp : p = [] ∨ p.head? = some sep) :
    components (toPath l ++ p) = l.map (fun n => n.1) ++ components p := by
  rw [toPath_of_ne_nil hl]
  clear hl
  induction l with
  | nil => rfl
  | cons n l ih =>
      -- Behind the first name comes a separator or nothing.
      have hrest : l.flatMap (fun n => sep :: n.1) ++ p = [] ∨
          (l.flatMap (fun n => sep :: n.1) ++ p).head? = some sep := by
        cases l with
        | nil => simpa using hp
        | cons m l => exact Or.inr (by simp)
      rw [List.flatMap_cons, List.cons_append, List.cons_append, List.append_assoc,
        components_sep_cons, components_name_append n hrest, ih, List.map_cons,
        List.cons_append]

/-- Cutting at a NUL keeps the separator in front, if anything is left. -/
theorem cString_eq_nil_or_head? {p : Path} (hp : p = [] ∨ p.head? = some sep) :
    cString p = [] ∨ (cString p).head? = some sep := by
  rcases hp with rfl | hp
  · exact Or.inl rfl
  · cases p with
    | nil => simp at hp
    | cons b p =>
        obtain rfl : b = sep := by simpa using hp
        exact Or.inr (by rw [cString_sep_cons]; rfl)

/-- The steps of a text below a location: down its names, then the steps of the rest. -/
theorem steps_toPath_append {l : Loc} (hl : l ≠ []) {p : Path}
    (hp : p = [] ∨ p.head? = some sep) :
    steps (toPath l ++ p) = l.map Step.down ++ steps p := by
  have hcp := cString_eq_nil_or_head? hp
  -- The text asks for a directory at its end exactly when the rest does.
  have hlast : (toPath l ++ cString p).getLast? = some sep ↔ (cString p).getLast? = some sep := by
    rcases hcp with hnil | hhead
    · simp [hnil, getLast?_toPath hl]
    · have hne : cString p ≠ [] := by
        intro h
        simp [h] at hhead
      rw [List.getLast?_append, List.getLast?_eq_some_getLast hne, Option.some_or]
  unfold steps
  rw [cString_append (nul_notMem_toPath l), components_toPath_append hl hcp, List.map_append,
    List.map_map, List.append_assoc]
  have hnames : l.map (Step.ofComponent ∘ fun n => n.1) = l.map Step.down :=
    List.map_congr_left fun n _ => Step.ofComponent_name n
  simp only [hnames, hlast]

/-- The text of a location is read as steps down along its names. -/
theorem steps_toPath {l : Loc} (hl : l ≠ []) : steps (toPath l) = l.map Step.down := by
  have h := steps_toPath_append hl (Or.inl (Eq.refl []))
  have hnil : steps [] = [] := by decide
  rwa [List.append_nil, hnil, List.append_nil] at h

/-- What `append` puts behind the text of a location. -/
def below (p : Path) : Path :=
  if p = [] then [] else if p.head? = some sep then p else sep :: p

/-- What `append` puts behind a path is empty or begins with a separator. -/
theorem below_head (p : Path) : below p = [] ∨ (below p).head? = some sep := by
  unfold below
  split
  · exact Or.inl rfl
  · split
    · exact Or.inr ‹_›
    · exact Or.inr rfl

/-- `append` puts a path behind the text of a location. -/
theorem append_toPath {l : Loc} (hl : l ≠ []) (p : Path) :
    append (toPath l) p = toPath l ++ below p := by
  unfold append below
  have hne := toPath_ne_nil l
  have hlast := getLast?_toPath hl
  by_cases hp : p = []
  · simp [hp]
  · by_cases hhead : p.head? = some sep
    · simp [hp, hhead]
    · simp [hp, hhead, hne, hlast]

/-- Going down the names of a location from another one appends them. -/
theorem foldl_apply_down (l k : Loc) : (l.map Step.down).foldl Step.apply k = k ++ l := by
  induction l generalizing k with
  | nil => simp
  | cons n l ih => simp [ih, Step.apply]

/-- The text of a location denotes it. -/
theorem denote_toPath (l : Loc) : denote (toPath l) = l := by
  by_cases hl : l = []
  · subst hl
    decide
  · rw [denote, steps_toPath hl, foldl_apply_down, List.nil_append]

/-! ### Cutting the last element -/

/-- Behind a text that does not end in a separator, separators and one component are at
most one step. -/
theorem steps_append_seps (q seps name : Path) (hlast : q.getLast? ≠ some sep)
    (hseps : ∀ b ∈ seps, b = sep) (hne : seps ≠ []) (hname : sep ∉ name) :
    steps (q ++ (seps ++ name)) = steps q ∨
      ∃ s, steps (q ++ (seps ++ name)) = steps q ++ [s] := by
  by_cases hnul : nul ∈ q
  · -- The system call sees the same C string.
    exact Or.inl (by unfold steps; rw [cString_append_of_mem hnul])
  · right
    have hnulseps : nul ∉ seps := fun h => sep_ne_nul (hseps _ h).symm
    have hcut : cString (q ++ (seps ++ name)) = q ++ (seps ++ cString name) := by
      rw [cString_append hnul, cString_append hnulseps]
    -- Any number of separators only splits.
    have hcomps : ∀ c, components (q ++ (seps ++ c)) = components q ++ components c := by
      intro c
      obtain ⟨b, seps, rfl⟩ := List.exists_cons_of_ne_nil hne
      obtain rfl : b = sep := hseps _ (by simp)
      rw [List.cons_append, components_append_sep]
      congr 1
      clear hcut hnulseps hne
      induction seps with
      | nil => rfl
      | cons b seps ih =>
          obtain rfl : b = sep := hseps _ (by simp)
          rw [List.cons_append, components_sep_cons]
          exact ih fun b hb => hseps b (by
            rcases List.mem_cons.mp hb with h | h <;> simp [h])
    have hstepsq : steps q = (components q).map Step.ofComponent := by
      unfold steps
      rw [cString_of_notMem hnul, if_neg hlast, List.append_nil]
    have hsepname := sep_notMem_cString hname
    by_cases hc : cString name = []
    · -- The name is empty or starts with a NUL, so the text ends in a separator.
      refine ⟨.stay, ?_⟩
      have htrail : (q ++ (seps ++ cString name)).getLast? = some sep := by
        rw [hc, List.append_nil, List.getLast?_append, List.getLast?_eq_some_getLast hne,
          Option.some_or, hseps _ (List.getLast_mem hne)]
      rw [hstepsq]
      unfold steps
      rw [hcut, if_pos htrail, hcomps, hc, components_nil, List.append_nil]
    · refine ⟨Step.ofComponent (cString name), ?_⟩
      have htrail : (q ++ (seps ++ cString name)).getLast? ≠ some sep := by
        rw [List.getLast?_append, List.getLast?_append, List.getLast?_eq_some_getLast hc,
          Option.some_or, Option.some_or]
        exact fun h => hsepname (Option.some.inj h ▸ List.getLast_mem hc)
      rw [hstepsq]
      unfold steps
      rw [hcut, if_neg htrail, hcomps, components_of_sep_notMem hsepname hc, List.append_nil,
        List.map_append, List.map_singleton]

/-- `rdropWhile` cuts a suffix whose elements all pass, down to an element that fails. -/
theorem rdropWhile_decomp {α : Type} (f : α → Bool) (p : List α) :
    ∃ cut, p = p.rdropWhile f ++ cut ∧ (∀ b ∈ cut, f b = true) ∧
      ∀ b, (p.rdropWhile f).getLast? = some b → f b = false := by
  refine ⟨p.rtakeWhile f, List.rdropWhile_append_rtakeWhile.symm,
    fun b hb => List.mem_rtakeWhile_imp hb, ?_⟩
  intro b hb
  have hne : p.rdropWhile f ≠ [] := by
    intro h
    simp [h] at hb
  rw [List.getLast?_eq_some_getLast hne] at hb
  simpa [Option.some.inj hb] using List.rdropWhile_last_not f p hne

/-- `rdropWhile` cuts exactly a suffix that passes behind an element that fails. -/
theorem rdropWhile_append_of_pos {α : Type} {f : α → Bool} {p q : List α}
    (hq : ∀ b ∈ q, f b = true) (hp : ∀ b, p.getLast? = some b → f b = false) :
    (p ++ q).rdropWhile f = p := by
  have hstays : p.rdropWhile f = p := by
    rw [List.rdropWhile_eq_self_iff]
    intro hne
    simpa using hp _ (List.getLast?_eq_some_getLast hne)
  rw [List.rdropWhile, List.reverse_append, List.dropWhile_append_of_pos (by simpa using hq),
    ← List.rdropWhile, hstays]

/-- A text that starts with a separator is a text that does not end in one, separators, and a
name. -/
theorem exists_parent_split {r : Path} (hr : r.head? = some sep) :
    ∃ q seps name, r = q ++ (seps ++ name) ∧ q.getLast? ≠ some sep ∧ (∀ b ∈ seps, b = sep) ∧
      seps ≠ [] ∧ sep ∉ name := by
  -- A stem that ends in a separator, then the name.
  obtain ⟨name, hname, hnamesep, hstemlast⟩ := rdropWhile_decomp (fun b => b ≠ sep) r
  generalize r.rdropWhile (fun b => b ≠ sep) = stem at hname hstemlast
  have hsepname : sep ∉ name := fun h => by simpa using hnamesep _ h
  have hstemne : stem ≠ [] := by
    rintro rfl
    rw [List.nil_append] at hname
    subst hname
    exact hsepname (List.mem_of_head? hr)
  -- The stem is the rest and its separators.
  obtain ⟨seps, hseps, hsepsall, hqlast⟩ := rdropWhile_decomp (fun b => b = sep) stem
  generalize stem.rdropWhile (fun b => b = sep) = q at hseps hqlast
  have hlast : q.getLast? ≠ some sep := fun h => by simpa using hqlast _ h
  refine ⟨q, seps, name, by rw [hname, hseps, List.append_assoc], hlast, by simpa using hsepsall,
    ?_, hsepname⟩
  rintro rfl
  rw [List.append_nil] at hseps
  have hsep := hstemlast _ (List.getLast?_eq_some_getLast hstemne)
  rw [List.getLast?_eq_some_getLast (hseps ▸ hstemne)] at hlast
  simp [hseps] at hsep hlast
  exact hlast hsep

/-- `parent_path()` cuts a name and the separators before it. -/
theorem parentPath_append {q seps name : Path} (hq : q ≠ []) (hlast : q.getLast? ≠ some sep)
    (hseps : ∀ b ∈ seps, b = sep) (hne : seps ≠ []) (hname : sep ∉ name) :
    parentPath (q ++ (seps ++ name)) = q := by
  have hstem : (q ++ (seps ++ name)).rdropWhile (fun b => b ≠ sep) = q ++ seps := by
    rw [← List.append_assoc]
    refine rdropWhile_append_of_pos (fun b hb => ?_) fun b hb => ?_
    · simpa using fun h : b = sep => hname (h ▸ hb)
    · rw [List.getLast?_append, List.getLast?_eq_some_getLast hne, Option.some_or] at hb
      simpa [← Option.some.inj hb] using hseps _ (List.getLast_mem hne)
  have hparent : (q ++ seps).rdropWhile (fun b => b = sep) = q := by
    refine rdropWhile_append_of_pos (by simpa using hseps) fun b hb => ?_
    simpa using fun h : b = sep => hlast (h ▸ hb)
  unfold parentPath
  simp only [hstem, hparent, hq, false_and, if_false]

/-- The last byte of a text below a location. -/
theorem getLast?_toPath_append {l : Loc} (hl : l ≠ []) {q : Path} (hq : q.getLast? ≠ some sep) :
    (toPath l ++ q).getLast? ≠ some sep := by
  cases hlast : q.getLast? with
  | none => simpa [List.getLast?_eq_none_iff.mp hlast] using getLast?_toPath hl
  | some b =>
      rw [List.getLast?_append, hlast, Option.some_or]
      exact hlast ▸ hq

/-- The parent of a text below a location: the location's own text or a shorter text below
it, with at most one step less. -/
theorem parentPath_toPath_append {l : Loc} (hl : l ≠ []) {r : Path} (hr : r.head? = some sep) :
    ∃ r', parentPath (toPath l ++ r) = toPath l ++ r' ∧ (r' = [] ∨ r'.head? = some sep) ∧
      r'.length < r.length ∧
      (steps (toPath l ++ r) = steps (toPath l ++ r') ∨
        ∃ s, steps (toPath l ++ r) = steps (toPath l ++ r') ++ [s]) := by
  obtain ⟨q, seps, name, rfl, hq, hseps, hne, hname⟩ := exists_parent_split hr
  have hlast := getLast?_toPath_append hl hq
  rw [← List.append_assoc]
  refine ⟨q, parentPath_append (by simp [toPath_ne_nil]) hlast hseps hne hname, ?_, ?_,
    steps_append_seps _ _ _ hlast hseps hne hname⟩
  · cases q with
    | nil => exact Or.inl rfl
    | cons b q => exact Or.inr (by simpa using hr)
  · have hpos := List.length_pos_iff.mpr hne
    rw [List.length_append, List.length_append]
    omega

/-! ### The text of a location and its parent -/

/-- `append` of a name is the text of the location with that name behind it. -/
theorem append_toPath_name (l : Loc) (n : Name) : append (toPath l) n.1 = toPath (l ++ [n]) := by
  have hne : n.1 ≠ [] := n.2.1
  have hhead : n.1.head? ≠ some sep := fun h => n.2.2.2.2.1 (List.mem_of_head? h)
  by_cases hl : l = []
  · subst hl
    simp [append, toPath, hne]
  · rw [append_toPath hl, toPath_concat, if_neg hl, below, if_neg hne, if_neg hhead]

/-- `parent_path` takes the last name away. -/
theorem parentPath_toPath (l : Loc) (n : Name) : parentPath (toPath (l ++ [n])) = toPath l := by
  have hsep : sep ∉ n.1 := n.2.2.2.2.1
  rw [toPath_concat]
  by_cases hl : l = []
  · -- The root directory is not cut.
    subst hl
    have hstem : (sep :: n.1).rdropWhile (fun b => b ≠ sep) = [sep] := by
      refine @rdropWhile_append_of_pos _ _ [sep] n.1 (fun b hb => ?_) (by simp)
      simpa using fun h : b = sep => hsep (h ▸ hb)
    show parentPath (sep :: n.1) = [sep]
    unfold parentPath
    rw [hstem]
    simp [n.2.1, List.rdropWhile]
  · rw [if_neg hl]
    exact @parentPath_append _ [sep] n.1 (toPath_ne_nil l) (getLast?_toPath hl) (by simp) (by simp)
      hsep

/-- The elements of the text of a location: the root directory and the names. -/
theorem elements_toPath (l : Loc) : elements (toPath l) = [sep] :: l.map (fun n => n.1) := by
  cases l with
  | nil => decide
  | cons n l =>
      have hcomps := components_toPath_append (List.cons_ne_nil n l) (Or.inl rfl)
      have hlast := getLast?_toPath (List.cons_ne_nil n l)
      rw [List.append_nil, components_nil, List.append_nil] at hcomps
      rw [← hcomps]
      -- Behind the root directory comes a name, so the text has no root name.
      obtain ⟨b, s, hn⟩ := List.exists_cons_of_ne_nil n.2.1
      have hb : b ≠ sep := by
        rintro rfl
        exact n.2.2.2.2.1 (by rw [hn]; simp)
      rw [toPath_of_ne_nil (List.cons_ne_nil n l), List.flatMap_cons, hn, List.cons_append,
        List.cons_append] at hlast ⊢
      rw [List.getLast?_cons_cons] at hlast
      rw [elements, if_neg (by simp [hb]), if_pos rfl, relativeElements, if_neg (by simp [hlast]),
        components_sep_cons, List.append_nil]

/-- `parent_path()` shortens every path but the empty one. -/
theorem parentPath_length_lt {p : Path} (hp : p ≠ []) : (parentPath p).length < p.length := by
  obtain ⟨name, hname, -, hstemlast⟩ := rdropWhile_decomp (fun b => b ≠ sep) p
  unfold parentPath
  generalize p.rdropWhile (fun b => b ≠ sep) = stem at hname hstemlast ⊢
  obtain ⟨seps, hseps, -, hparentlast⟩ := rdropWhile_decomp (fun b => b = sep) stem
  dsimp only
  generalize stem.rdropWhile (fun b => b = sep) = parent at hseps hparentlast ⊢
  have hlen : p.length = parent.length + seps.length + name.length := by
    rw [hname, hseps, List.length_append, List.length_append]
  split
  · -- The root directory is left: a separator and a name are longer.
    rename_i h
    obtain ⟨rfl, hstem, hne⟩ := h
    rw [List.nil_append] at hseps
    have hnamepos : name.length ≠ 0 := by
      intro h
      exact hne (by rw [hname, List.length_eq_zero_iff.mp h, List.append_nil])
    have hsepspos : seps.length ≠ 0 := fun h => hstem (by rw [hseps, List.length_eq_zero_iff.mp h])
    rw [List.length_singleton]
    omega
  · by_contra h
    have hsepsnil : seps = [] := List.length_eq_zero_iff.mp (by omega)
    have hnamenil : name = [] := List.length_eq_zero_iff.mp (by omega)
    rw [hnamenil, List.append_nil] at hname
    rw [hsepsnil, List.append_nil] at hseps
    -- The last byte would be a separator and none.
    have hlast := List.getLast?_eq_some_getLast hp
    have h1 := hstemlast _ (by rw [← hname]; exact hlast)
    have h2 := hparentlast _ (by rw [← hseps, ← hname]; exact hlast)
    simp at h1 h2
    exact h2 h1

/-! ### Paths of plain components -/

/-- A path of plain components, with a separator in front or without. -/
def PlainPath (p : Path) : Prop := ∃ ns : Loc, ns ≠ [] ∧ (p = toPath ns ∨ sep :: p = toPath ns)

/-- The texts of two locations, one behind the other, are the text of both together. -/
theorem toPath_append {l : Loc} (hl : l ≠ []) {k : Loc} (hk : k ≠ []) :
    toPath l ++ toPath k = toPath (l ++ k) := by
  have hlk : l ++ k ≠ [] := by simp [hl]
  rw [toPath_of_ne_nil hl, toPath_of_ne_nil hk, toPath_of_ne_nil hlk, List.flatMap_append]

/-- The text of a location begins with a separator. -/
theorem head?_toPath {l : Loc} (hl : l ≠ []) : (toPath l).head? = some sep := by
  obtain ⟨n, l, rfl⟩ := List.exists_cons_of_ne_nil hl
  simp [toPath]

/-- Behind the separator of the text of a location comes a name. -/
theorem head?_of_sep_cons {p : Path} {l : Loc} (hl : l ≠ []) (h : sep :: p = toPath l) :
    p ≠ [] ∧ p.head? ≠ some sep := by
  obtain ⟨n, l, rfl⟩ := List.exists_cons_of_ne_nil hl
  rw [toPath_of_ne_nil hl, List.flatMap_cons, List.cons_append, List.cons.injEq] at h
  obtain ⟨b, s, hn⟩ := List.exists_cons_of_ne_nil n.2.1
  have hb : b ≠ sep := by
    rintro rfl
    exact n.2.2.2.2.1 (by rw [hn]; simp)
  rw [h.2, hn]
  exact ⟨by simp, by simpa using hb⟩

/-- A plain path below a location is the text of a location. -/
theorem append_plain {l ns : Loc} (hl : l ≠ []) (hns : ns ≠ []) {p : Path}
    (hp : p = toPath ns ∨ sep :: p = toPath ns) : append (toPath l) p = toPath (l ++ ns) := by
  have hbelow : below p = toPath ns := by
    rcases hp with rfl | hp
    · rw [below, if_neg (toPath_ne_nil ns), if_pos (head?_toPath hns)]
    · obtain ⟨hne, hhead⟩ := head?_of_sep_cons hns hp
      rw [below, if_neg hne, if_neg hhead, hp]
  rw [append_toPath hl, hbelow, toPath_append hl hns]

/-- The elements of a path that is the text of a location without its first separator. -/
theorem elements_of_sep_cons {p : Path} {l : Loc} (hl : l ≠ []) (h : sep :: p = toPath l) :
    elements p = l.map (fun n => n.1) := by
  obtain ⟨hne, hhead⟩ := head?_of_sep_cons hl h
  have hcomps : components p = l.map (fun n => n.1) := by
    have htoPath := components_toPath_append hl (Or.inl rfl)
    rwa [List.append_nil, components_nil, List.append_nil, ← h, components_sep_cons] at htoPath
  have hlast : p.getLast? ≠ some sep := by
    have htoPath := getLast?_toPath hl
    rw [← h] at htoPath
    obtain ⟨b, q, rfl⟩ := List.exists_cons_of_ne_nil hne
    rwa [List.getLast?_cons_cons] at htoPath
  have htrail : relativeElements p = components p := by
    rw [relativeElements, if_neg fun htrail => hlast htrail.2, List.append_nil]
  rw [← hcomps]
  obtain ⟨b, q, rfl⟩ := List.exists_cons_of_ne_nil hne
  have hb : b ≠ sep := by simpa using hhead
  -- The first byte is no separator, so there is no root.
  cases q with
  | nil => rw [elements, if_neg hb, components_of_sep_notMem (by simpa using Ne.symm hb) (by simp)]
  | cons b' q => rw [elements, if_neg (by simp [hb]), if_neg hb, htrail]

/-- Plain paths with the same elements are the same path. -/
theorem PlainPath.elements_injective {p q : Path} (hp : PlainPath p) (hq : PlainPath q)
    (h : elements p = elements q) : p = q := by
  obtain ⟨l, hl, hp⟩ := hp
  obtain ⟨k, hk, hq⟩ := hq
  have hinjective : ∀ {l k : Loc}, l.map (fun n => n.1) = k.map (fun n => n.1) → l = k :=
    fun h => List.map_injective_iff.mpr Subtype.val_injective h
  -- A name has no separator in it, so it is not the root directory.
  have hroot : ∀ {l k : Loc}, [sep] :: l.map (fun n => n.1) ≠ k.map (fun n => n.1) := by
    intro l k h
    cases k with
    | nil => exact absurd h (by simp)
    | cons n k =>
        have hn : [sep] = n.1 := (List.cons.inj h).1
        exact n.2.2.2.2.1 (by rw [← hn]; simp)
  rcases hp with rfl | hp <;> rcases hq with rfl | hq
  · rw [elements_toPath, elements_toPath] at h
    rw [hinjective (List.cons.inj h).2]
  · rw [elements_toPath, elements_of_sep_cons hk hq] at h
    exact absurd h hroot
  · rw [elements_toPath, elements_of_sep_cons hl hp] at h
    exact absurd h.symm hroot
  · rw [elements_of_sep_cons hl hp, elements_of_sep_cons hk hq] at h
    rw [← hinjective h] at hq
    exact (List.cons.inj (hp.trans hq.symm)).2

/-- A name with a suffix. -/
def Name.extend (n : Name) (s : Bytes) (hs : sep ∉ s ∧ nul ∉ s ∧ 2 < s.length) : Name :=
  ⟨n.1 ++ s, by
    have hlen : 2 < (n.1 ++ s).length := by
      rw [List.length_append]
      omega
    refine ⟨?_, ?_, ?_, ?_, ?_⟩
    · intro h
      simp [h] at hlen
    · intro h
      simp [h] at hlen
    · intro h
      simp [h] at hlen
    · simpa [hs.1] using n.2.2.2.2.1
    · simpa [hs.2.1] using n.2.2.2.2.2⟩

/-- A suffix behind the text of a location extends its last name. -/
theorem toPath_concat_append (l : Loc) (n : Name) (s : Bytes)
    (hs : sep ∉ s ∧ nul ∉ s ∧ 2 < s.length) :
    toPath (l ++ [n]) ++ s = toPath (l ++ [n.extend s hs]) := by
  rw [toPath_concat, toPath_concat]
  simp [Name.extend]

end RemoteBackup.Lib
