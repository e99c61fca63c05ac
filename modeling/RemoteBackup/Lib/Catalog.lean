import Mathlib.Logic.ExistsUnique
import Mathlib.Logic.Relation

/-!
# `RemoteBackup.Lib.Catalog`: a catalog of files that are written one at a time

A catalog lists keys. Each key has a place, and the file of the key stands there. A file that
replaces another one is first written as a draft beside it. At most one file is being
written.

`Consistent` says that the catalog mirrors the files: a listed key has a file, a key that is
listed as synced has the declared digest, and every file is that of a listed key or the draft
that is being written. `Step` is what can happen to a catalog, and `Consistent.step` and
`Consistent.steps` are the induction rule: every step keeps the invariant, so every run of
steps does.

`Consistent.exactly_one` is what a reader of the catalog gets: a file that is not being
drafted belongs to exactly one key.
-/

set_option autoImplicit false

namespace RemoteBackup.Lib

/-- A catalog and the files it lists. `listed k s d` is an entry: the key, whether it is
synced, its digest. `stands l f` is the file at a place, `bytes` the content of the files, and
`writing` the file that is being written. -/
structure Catalog (Key Place File Content Digest : Type) where
  listed : Key → Bool → Digest → Prop
  stands : Place → File → Prop
  bytes : File → Content
  writing : Option File

namespace Catalog

variable {Key Place File Content Digest : Type}

/-- An entry of the key `k` is written, and the other keys keep theirs. -/
def Enters (c c' : Catalog Key Place File Content Digest) (k : Key) (s : Bool) (d : Digest) :
    Prop :=
  ∀ k' s' d', c'.listed k' s' d' ↔ (k' = k ∧ s' = s ∧ d' = d) ∨ (k' ≠ k ∧ c.listed k' s' d')

/-- The entry of the key `k` goes, and the other keys keep theirs. -/
def Unlists (c c' : Catalog Key Place File Content Digest) (k : Key) : Prop :=
  ∀ k' s' d', c'.listed k' s' d' ↔ k' ≠ k ∧ c.listed k' s' d'

/-- The entries stay. -/
def SameEntries (c c' : Catalog Key Place File Content Digest) : Prop :=
  ∀ k s d, c'.listed k s d ↔ c.listed k s d

/-- The files stay where they are. -/
def SameFiles (c c' : Catalog Key Place File Content Digest) : Prop :=
  ∀ l f, c'.stands l f ↔ c.stands l f

/-- The file `f` is put at a place, if it does not stand there. -/
def Puts (c c' : Catalog Key Place File Content Digest) (l : Place) (f : File) : Prop :=
  ∀ l' f', c'.stands l' f' ↔ c.stands l' f' ∨ (l' = l ∧ f' = f)

/-- No other file changes. -/
def WritesOnly (c c' : Catalog Key Place File Content Digest) (f : File) : Prop :=
  ∀ g, g ≠ f → c'.bytes g = c.bytes g

section
variable (place : Key → Place) (draft : Place → Place) (digest : Key → Content → Digest)

/-- The catalog mirrors the files. -/
structure Consistent (c : Catalog Key Place File Content Digest) : Prop where
  one_place : ∀ l l' f, c.stands l f → c.stands l' f → l = l'
  one_file : ∀ l f f', c.stands l f → c.stands l f' → f = f'
  sole : ∀ k s d k' s' d', c.listed k s d → c.listed k' s' d' → place k = place k' →
    k = k' ∧ s = s' ∧ d = d'
  stored : ∀ k s d, c.listed k s d →
    ∃ f, c.stands (place k) f ∧ (s = true → digest k (c.bytes f) = d)
  known : ∀ l f, c.stands l f → (∃ k s d, c.listed k s d ∧ place k = l) ∨
    ∃ k d, c.listed k false d ∧ l = draft (place k) ∧ c.writing = some f
  owned : ∀ f, c.writing = some f → (∀ l, ¬ c.stands l f) ∨
    (∃ k d, c.listed k false d ∧ c.stands (place k) f) ∨
    ∃ k d, c.listed k false d ∧ c.stands (draft (place k)) f ∧
      ∀ k' s' d', c.listed k' s' d' → place k' ≠ draft (place k)

/-- What can happen to a catalog.

- `write`: at most the file that is being written changes;
- `enter`: a key gets an unsynced entry and a file at its place, new or not;
- `begin`: a draft for a listed key is started;
- `replace`: the draft of a key takes the place of its file;
- `settle`: an unsynced key whose file has the declared digest becomes synced;
- `drop`: a key goes, and its file with it. -/
inductive Step :
    Catalog Key Place File Content Digest → Catalog Key Place File Content Digest → Prop
  | write (c c') (hlisted : SameEntries c c') (hfiles : SameFiles c c')
      (hwriting : c'.writing = c.writing)
      (hbytes : ∀ l f, c.stands l f → c.writing ≠ some f → c'.bytes f = c.bytes f) : Step c c'
  | enter (c c') (k : Key) (d : Digest) (f : File) (hentry : Enters c c' k false d)
      (hfiles : Puts c c' (place k) f) (hbytes : WritesOnly c c' f)
      (hsole : ∀ k' s' d', c.listed k' s' d' → place k' = place k → k' = k)
      (hfile : ∀ g, c.stands (place k) g → g = f) (hplace : ∀ l, c.stands l f → l = place k)
      (hbefore : c.writing = none ∨ c.writing = some f)
      (hafter : c'.writing = none ∨ c'.writing = some f) : Step c c'
  | begin (c c') (k : Key) (s : Bool) (d d' : Digest) (f : File) (hk : c.listed k s d)
      (hentry : Enters c c' k false d') (hfiles : Puts c c' (draft (place k)) f)
      (hbytes : WritesOnly c c' f)
      (hfree : ∀ k' s' d', c.listed k' s' d' → place k' ≠ draft (place k))
      (hnew : ∀ l, ¬ c.stands l f) (hbefore : c.writing = none) (hafter : c'.writing = some f) :
      Step c c'
  | replace (c c') (k : Key) (d : Digest) (f : File) (hk : c.listed k false d)
      (hlisted : SameEntries c c') (hdraft : c.stands (draft (place k)) f)
      (hfiles : ∀ l g, c'.stands l g ↔
        (l = place k ∧ g = f) ∨ (l ≠ place k ∧ l ≠ draft (place k) ∧ c.stands l g))
      (hbytes : WritesOnly c c' f)
      (hfree : ∀ k' s' d', c.listed k' s' d' → place k' ≠ draft (place k))
      (hbefore : c.writing = some f) (hafter : c'.writing = none) : Step c c'
  | settle (c c') (k : Key) (d d' : Digest) (f : File) (hk : c.listed k false d)
      (hentry : Enters c c' k true d') (hfiles : SameFiles c c') (hbytes : c'.bytes = c.bytes)
      (hfile : c.stands (place k) f) (hdigest : digest k (c.bytes f) = d')
      (hbefore : c.writing = none) (hafter : c'.writing = none) : Step c c'
  | drop (c c') (k : Key) (s : Bool) (d : Digest) (hk : c.listed k s d)
      (hentry : Unlists c c' k)
      (hfiles : ∀ l f, c'.stands l f ↔ l ≠ place k ∧ c.stands l f) (hbytes : c'.bytes = c.bytes)
      (hidle : ∀ f, c.writing = some f → ¬ c.stands (draft (place k)) f)
      (hwriting : c'.writing = c.writing) : Step c c'

end

variable {place : Key → Place} {draft : Place → Place} {digest : Key → Content → Digest}
  {c c' : Catalog Key Place File Content Digest}

/-! ### What a reader gets -/

/-- The file of a synced key has the key's digest. -/
theorem Consistent.synced (h : Consistent place draft digest c) {k : Key} {d : Digest}
    (hk : c.listed k true d) : ∃ f, c.stands (place k) f ∧ digest k (c.bytes f) = d := by
  obtain ⟨f, hf, hdigest⟩ := h.stored k true d hk
  exact ⟨f, hf, hdigest rfl⟩

/-- A file belongs to exactly one key, or it is the draft of a listed key, which is not synced,
and is being written. -/
theorem Consistent.exactly_one (h : Consistent place draft digest c) {l : Place} {f : File}
    (hf : c.stands l f) : (∃! k, ∃ s d, c.listed k s d ∧ place k = l) ∨
      ∃ k d, c.listed k false d ∧ l = draft (place k) ∧ c.writing = some f := by
  rcases h.known l f hf with ⟨k, s, d, hk, hl⟩ | hdraft
  · left
    refine ⟨k, ⟨s, d, hk, hl⟩, ?_⟩
    rintro k' ⟨s', d', hk', hl'⟩
    exact (h.sole k' s' d' k s d hk' hk (hl'.trans hl.symm)).1
  · exact Or.inr hdraft

/-- The file that is being written is not the file of a synced key. -/
theorem Consistent.not_writing (h : Consistent place draft digest c) {k : Key} {d : Digest}
    {f : File} (hk : c.listed k true d) (hf : c.stands (place k) f) : c.writing ≠ some f := by
  intro hwriting
  rcases h.owned f hwriting with hnone | ⟨k', d', hk', hf'⟩ | ⟨k', d', hk', hf', hfree⟩
  · exact hnone _ hf
  · have hplace := h.one_place _ _ f hf hf'
    exact absurd (h.sole k true d k' false d' hk hk' hplace).2.1 (by simp)
  · exact hfree k true d hk (h.one_place _ _ f hf hf')

/-! ### Files and entries after a change -/

/-- After `f` is put at a place, where no other file stands and `f` stands nowhere else, every
file still has one place. -/
theorem Puts.one_place (hone : ∀ l l' f, c.stands l f → c.stands l' f → l = l') {l : Place}
    {f : File} (hfiles : Puts c c' l f) (hplace : ∀ l', c.stands l' f → l' = l) (l1 l2 : Place)
    (g : File) (h1 : c'.stands l1 g) (h2 : c'.stands l2 g) : l1 = l2 := by
  rcases (hfiles l1 g).mp h1 with h1 | ⟨hl1, hg1⟩ <;>
    rcases (hfiles l2 g).mp h2 with h2 | ⟨hl2, hg2⟩
  · exact hone l1 l2 g h1 h2
  · exact (hplace l1 (hg2 ▸ h1)).trans hl2.symm
  · exact hl1.trans (hplace l2 (hg1 ▸ h2)).symm
  · exact hl1.trans hl2.symm

/-- A place where only this file stood has one file afterwards, as every other. -/
theorem Puts.one_file (hone : ∀ l f f', c.stands l f → c.stands l f' → f = f') {l : Place}
    {f : File} (hfiles : Puts c c' l f) (hfile : ∀ g, c.stands l g → g = f) (l' : Place)
    (g1 g2 : File) (h1 : c'.stands l' g1) (h2 : c'.stands l' g2) : g1 = g2 := by
  rcases (hfiles l' g1).mp h1 with h1 | ⟨hl1, hg1⟩ <;>
    rcases (hfiles l' g2).mp h2 with h2 | ⟨hl2, hg2⟩
  · exact hone l' g1 g2 h1 h2
  · exact (hfile g1 (hl2 ▸ h1)).trans hg2.symm
  · exact hg1.trans (hfile g2 (hl1 ▸ h2)).symm
  · exact hg1.trans hg2.symm

/-- After the entry of `k` is written, and no other key has its place, every key still has a
place of its own. -/
theorem Enters.sole (h : Consistent place draft digest c) {k : Key} {s : Bool} {d : Digest}
    (hentry : Enters c c' k s d)
    (hsole : ∀ k' s' d', c.listed k' s' d' → place k' = place k → k' = k) (k1 : Key) (s1 : Bool)
    (d1 : Digest) (k2 : Key) (s2 : Bool) (d2 : Digest) (h1 : c'.listed k1 s1 d1)
    (h2 : c'.listed k2 s2 d2) (heq : place k1 = place k2) : k1 = k2 ∧ s1 = s2 ∧ d1 = d2 := by
  rcases (hentry k1 s1 d1).mp h1 with ⟨rfl, rfl, rfl⟩ | ⟨hne1, h1⟩ <;>
    rcases (hentry k2 s2 d2).mp h2 with ⟨rfl, rfl, rfl⟩ | ⟨hne2, h2⟩
  · exact ⟨rfl, rfl, rfl⟩
  · exact absurd (hsole k2 s2 d2 h2 heq.symm) hne2
  · exact absurd (hsole k1 s1 d1 h1 heq) hne1
  · exact h.sole k1 s1 d1 k2 s2 d2 h1 h2 heq

/-- The entry that was written is there. -/
theorem Enters.self {k : Key} {s : Bool} {d : Digest} (hentry : Enters c c' k s d) :
    c'.listed k s d := (hentry k s d).mpr (Or.inl ⟨rfl, rfl, rfl⟩)

/-- A listed key stays listed. -/
theorem Enters.keeps {k : Key} {s : Bool} {d : Digest} (hentry : Enters c c' k s d) {k' : Key}
    {s' : Bool} {d' : Digest} (hk' : c.listed k' s' d') : ∃ s1 d1, c'.listed k' s1 d1 := by
  by_cases hkk : k' = k
  · exact ⟨s, d, hkk ▸ hentry.self⟩
  · exact ⟨s', d', (hentry _ _ _).mpr (Or.inr ⟨hkk, hk'⟩)⟩

/-- The entry that a key has could have been written just now. -/
theorem Enters.of_listed (h : Consistent place draft digest c) (hsame : SameEntries c c') {k : Key}
    {s : Bool} {d : Digest} (hk : c.listed k s d) : Enters c c' k s d := by
  intro k' s' d'
  rw [hsame k' s' d']
  constructor
  · intro hk'
    by_cases hkk : k' = k
    · subst hkk
      exact Or.inl (h.sole k' s' d' k' s d hk' hk rfl)
    · exact Or.inr ⟨hkk, hk'⟩
  · rintro (⟨rfl, rfl, rfl⟩ | ⟨-, hk'⟩)
    · exact hk
    · exact hk'

/-- Two entries written for the same key, one after the other. -/
theorem Enters.again {c1 c2 : Catalog Key Place File Content Digest} {k : Key} {s1 s2 : Bool}
    {d1 d2 : Digest} (h1 : Enters c c1 k s1 d1) (h2 : Enters c c2 k s2 d2) :
    Enters c1 c2 k s2 d2 := by
  intro k' s' d'
  rw [h2 k' s' d']
  refine or_congr_right (and_congr_right fun hne => ?_)
  rw [h1 k' s' d']
  simp [hne]

/-- An entry that is written and then goes. -/
theorem Enters.unlists {c1 c2 c3 : Catalog Key Place File Content Digest} {k : Key} {s1 s2 : Bool}
    {d1 d2 : Digest} (h1 : Enters c c1 k s1 d1) (h2 : Enters c c2 k s2 d2)
    (h3 : Unlists c2 c3 k) : Unlists c1 c3 k := by
  intro k' s' d'
  rw [h3 k' s' d']
  refine and_congr_right fun hne => ?_
  rw [h1 k' s' d', h2 k' s' d']
  simp [hne]

/-! ### Every step keeps the invariant -/

/-- Bytes go into the file that is being written, and nothing else changes. -/
theorem Consistent.write (h : Consistent place draft digest c) (hlisted : SameEntries c c')
    (hfiles : SameFiles c c') (hwriting : c'.writing = c.writing)
    (hbytes : ∀ l f, c.stands l f → c.writing ≠ some f → c'.bytes f = c.bytes f) :
    Consistent place draft digest c' where
  one_place l l' f hl hl' := h.one_place l l' f ((hfiles l f).mp hl) ((hfiles l' f).mp hl')
  one_file l f f' hf hf' := h.one_file l f f' ((hfiles l f).mp hf) ((hfiles l f').mp hf')
  sole k s d k' s' d' hk hk' :=
    h.sole k s d k' s' d' ((hlisted k s d).mp hk) ((hlisted k' s' d').mp hk')
  stored := by
    intro k s d hk
    have hk' := (hlisted k s d).mp hk
    obtain ⟨f, hf, hdigest⟩ := h.stored k s d hk'
    refine ⟨f, (hfiles _ f).mpr hf, ?_⟩
    -- A synced entry's file is not the one being written, so its bytes stay.
    rintro rfl
    rw [hbytes _ f hf (h.not_writing hk' hf)]
    exact hdigest rfl
  known := by
    intro l f hf
    simp only [hlisted _ _ _, hwriting]
    exact h.known l f ((hfiles l f).mp hf)
  owned := by
    intro f hf
    simp only [hlisted _ _ _, hfiles _ _]
    exact h.owned f (hwriting ▸ hf)

/-- A key is listed as unfinished, and its file is being written. -/
theorem Consistent.enter (h : Consistent place draft digest c) {k : Key} {d : Digest} {f : File}
    (hentry : Enters c c' k false d) (hfiles : Puts c c' (place k) f) (hbytes : WritesOnly c c' f)
    (hsole : ∀ k' s' d', c.listed k' s' d' → place k' = place k → k' = k)
    (hfile : ∀ g, c.stands (place k) g → g = f) (hplace : ∀ l, c.stands l f → l = place k)
    (hbefore : c.writing = none ∨ c.writing = some f)
    (hafter : c'.writing = none ∨ c'.writing = some f) : Consistent place draft digest c' where
  one_place := hfiles.one_place h.one_place hplace
  one_file := hfiles.one_file h.one_file hfile
  sole := hentry.sole h hsole
  stored := by
    intro k' s' d' hk'
    rcases (hentry k' s' d').mp hk' with ⟨rfl, rfl, rfl⟩ | ⟨hne, hk'⟩
    · exact ⟨f, (hfiles _ f).mpr (Or.inr ⟨rfl, rfl⟩), fun hs => absurd hs (by simp)⟩
    · obtain ⟨g, hg, hdigest⟩ := h.stored k' s' d' hk'
      -- The file of another key is not `f`, so its bytes stay.
      have hgf : g ≠ f := by
        rintro rfl
        exact hne (hsole k' s' d' hk' (hplace _ hg))
      exact ⟨g, (hfiles _ g).mpr (Or.inl hg), by rwa [hbytes g hgf]⟩
  known := by
    intro l g hg
    left
    rcases (hfiles l g).mp hg with hg | ⟨hl, -⟩
    · rcases h.known l g hg with ⟨k', s', d', hk', hl⟩ | ⟨k', d', hk', hl, hwriting⟩
      · obtain ⟨s1, d1, hk1⟩ := hentry.keeps hk'
        exact ⟨k', s1, d1, hk1, hl⟩
      · -- A draft that is being written is `f`, which stands at the place of `k` now.
        have hgf : g = f := by
          rcases hbefore with hnone | hsome
          · rw [hnone] at hwriting
            exact absurd hwriting (by simp)
          · rw [hsome] at hwriting
            exact (Option.some.inj hwriting).symm
        exact ⟨k, false, d, hentry.self, (hplace l (hgf ▸ hg)).symm⟩
    · exact ⟨k, false, d, hentry.self, hl.symm⟩
  owned := by
    intro g hg
    right; left
    obtain rfl : f = g := by
      rcases hafter with hnone | hsome
      · rw [hnone] at hg
        exact absurd hg (by simp)
      · rw [hsome] at hg
        exact Option.some.inj hg
    exact ⟨k, d, hentry.self, (hfiles _ f).mpr (Or.inr ⟨rfl, rfl⟩)⟩

/-- A listed key gets a draft, and the draft is being written. -/
theorem Consistent.begin (h : Consistent place draft digest c) {k : Key} {s : Bool}
    {d d' : Digest} {f : File} (hk : c.listed k s d) (hentry : Enters c c' k false d')
    (hfiles : Puts c c' (draft (place k)) f) (hbytes : WritesOnly c c' f)
    (hfree : ∀ k' s' d', c.listed k' s' d' → place k' ≠ draft (place k))
    (hnew : ∀ l, ¬ c.stands l f) (hbefore : c.writing = none) (hafter : c'.writing = some f) :
    Consistent place draft digest c' := by
  -- Nothing is being written before, so every file is that of a key.
  have hkeyed : ∀ l g, c.stands l g → ∃ k' s' d', c.listed k' s' d' ∧ place k' = l := by
    intro l g hg
    rcases h.known l g hg with hkey | ⟨k', d', -, -, hwriting⟩
    · exact hkey
    · rw [hbefore] at hwriting
      exact absurd hwriting (by simp)
  have hnone : ∀ g, ¬ c.stands (draft (place k)) g := by
    intro g hg
    obtain ⟨k', s', d', hk', hl⟩ := hkeyed _ g hg
    exact hfree k' s' d' hk' hl
  have hlisted : ∀ k' s' d'', c'.listed k' s' d'' → ∃ s1 d1, c.listed k' s1 d1 := by
    intro k' s' d'' hk'
    rcases (hentry k' s' d'').mp hk' with ⟨rfl, -, -⟩ | ⟨-, hk'⟩
    · exact ⟨s, d, hk⟩
    · exact ⟨s', d'', hk'⟩
  constructor
  case one_place => exact hfiles.one_place h.one_place fun l hl => absurd hl (hnew l)
  case one_file => exact hfiles.one_file h.one_file fun g hg => absurd hg (hnone g)
  case sole =>
    exact hentry.sole h fun k' s' d'' hk' heq => (h.sole k' s' d'' k s d hk' hk heq).1
  case stored =>
    intro k' s' d'' hk'
    obtain ⟨s1, d1, hk1⟩ := hlisted k' s' d'' hk'
    obtain ⟨g, hg, hdigest⟩ := h.stored k' s1 d1 hk1
    have hgf : g ≠ f := by
      rintro rfl
      exact hnew _ hg
    refine ⟨g, (hfiles _ g).mpr (Or.inl hg), fun hs => ?_⟩
    rcases (hentry k' s' d'').mp hk' with ⟨-, rfl, -⟩ | ⟨-, hk'⟩
    · exact absurd hs (by simp)
    · obtain ⟨-, rfl, rfl⟩ := h.sole k' s1 d1 k' s' d'' hk1 hk' rfl
      rw [hbytes g hgf]
      exact hdigest hs
  case known =>
    intro l g hg
    rcases (hfiles l g).mp hg with hg | ⟨hl, hgf⟩
    · obtain ⟨k', s', d'', hk', hl⟩ := hkeyed l g hg
      obtain ⟨s1, d1, hk1⟩ := hentry.keeps hk'
      exact Or.inl ⟨k', s1, d1, hk1, hl⟩
    · exact Or.inr ⟨k, d', hentry.self, hl, hgf ▸ hafter⟩
  case owned =>
    intro g hg
    obtain rfl : f = g := by
      rw [hafter] at hg
      exact Option.some.inj hg
    refine Or.inr (Or.inr ⟨k, d', hentry.self, (hfiles _ f).mpr (Or.inr ⟨rfl, rfl⟩), ?_⟩)
    intro k' s' d'' hk'
    obtain ⟨s1, d1, hk1⟩ := hlisted k' s' d'' hk'
    exact hfree k' s1 d1 hk1

/-- The draft takes the place of the file. -/
theorem Consistent.replace (h : Consistent place draft digest c) {k : Key} {d : Digest} {f : File}
    (hk : c.listed k false d) (hlisted : SameEntries c c') (hdraft : c.stands (draft (place k)) f)
    (hfiles : ∀ l g, c'.stands l g ↔
      (l = place k ∧ g = f) ∨ (l ≠ place k ∧ l ≠ draft (place k) ∧ c.stands l g))
    (hbytes : WritesOnly c c' f)
    (hfree : ∀ k' s' d', c.listed k' s' d' → place k' ≠ draft (place k))
    (hbefore : c.writing = some f) (hafter : c'.writing = none) :
    Consistent place draft digest c' := by
  -- `f` stands at the draft's place alone, and the other places have other files.
  have hother : ∀ l g, l ≠ draft (place k) → c.stands l g → g ≠ f := by
    rintro l g hl hg rfl
    exact hl (h.one_place _ _ _ hg hdraft)
  constructor
  case one_place =>
    intro l l' g hl hl'
    rcases (hfiles l g).mp hl with ⟨hlk, hg⟩ | ⟨-, hne, hl⟩ <;>
      rcases (hfiles l' g).mp hl' with ⟨hlk', hg'⟩ | ⟨-, hne', hl'⟩
    · exact hlk.trans hlk'.symm
    · exact absurd hg (hother l' g hne' hl')
    · exact absurd hg' (hother l g hne hl)
    · exact h.one_place l l' g hl hl'
  case one_file =>
    intro l g g' hg hg'
    rcases (hfiles l g).mp hg with ⟨hl, hgf⟩ | ⟨hl, -, hg⟩ <;>
      rcases (hfiles l g').mp hg' with ⟨hl', hgf'⟩ | ⟨hl', -, hg'⟩
    · exact hgf.trans hgf'.symm
    · exact absurd hl hl'
    · exact absurd hl' hl
    · exact h.one_file l g g' hg hg'
  case sole =>
    intro k1 s1 d1 k2 s2 d2 h1 h2
    exact h.sole k1 s1 d1 k2 s2 d2 ((hlisted _ _ _).mp h1) ((hlisted _ _ _).mp h2)
  case stored =>
    intro k' s' d' hk'
    replace hk' := (hlisted k' s' d').mp hk'
    by_cases hplace : place k' = place k
    · obtain ⟨rfl, rfl, rfl⟩ := h.sole k' s' d' k false d hk' hk hplace
      exact ⟨f, (hfiles _ f).mpr (Or.inl ⟨rfl, rfl⟩), fun hs => absurd hs (by simp)⟩
    · obtain ⟨g, hg, hdigest⟩ := h.stored k' s' d' hk'
      have hne := hfree k' s' d' hk'
      exact ⟨g, (hfiles _ g).mpr (Or.inr ⟨hplace, hne, hg⟩),
        by rwa [hbytes g (hother _ g hne hg)]⟩
  case known =>
    intro l g hg
    simp only [hlisted _ _ _]
    rcases (hfiles l g).mp hg with ⟨hl, -⟩ | ⟨-, hne, hg⟩
    · exact Or.inl ⟨k, false, d, hk, hl.symm⟩
    · rcases h.known l g hg with hkey | ⟨k', d', -, -, hwriting⟩
      · exact Or.inl hkey
      · rw [hbefore] at hwriting
        exact absurd (Option.some.inj hwriting).symm (hother l g hne hg)
  case owned =>
    intro g hg
    rw [hafter] at hg
    exact absurd hg (by simp)

/-- A key whose file has the declared digest is listed as finished. -/
theorem Consistent.settle (h : Consistent place draft digest c) {k : Key} {d d' : Digest}
    {f : File} (hk : c.listed k false d) (hentry : Enters c c' k true d') (hfiles : SameFiles c c')
    (hbytes : c'.bytes = c.bytes) (hfile : c.stands (place k) f)
    (hdigest : digest k (c.bytes f) = d') (hbefore : c.writing = none)
    (hafter : c'.writing = none) : Consistent place draft digest c' where
  one_place l l' g hl hl' := h.one_place l l' g ((hfiles l g).mp hl) ((hfiles l' g).mp hl')
  one_file l g g' hg hg' := h.one_file l g g' ((hfiles l g).mp hg) ((hfiles l g').mp hg')
  sole := hentry.sole h fun k' s' d'' hk' heq => (h.sole k' s' d'' k false d hk' hk heq).1
  stored := by
    intro k' s' d'' hk'
    rw [hbytes]
    simp only [hfiles _ _]
    rcases (hentry k' s' d'').mp hk' with ⟨rfl, rfl, rfl⟩ | ⟨-, hk'⟩
    · exact ⟨f, hfile, fun _ => hdigest⟩
    · exact h.stored k' s' d'' hk'
  known := by
    intro l g hg
    left
    -- Nothing was being written, so every file had its entry, and keeps one.
    rcases h.known l g ((hfiles l g).mp hg) with ⟨k', s', d'', hk', hl⟩ | ⟨k', d'', -, -, hw⟩
    · obtain ⟨s1, d1, hk1⟩ := hentry.keeps hk'
      exact ⟨k', s1, d1, hk1, hl⟩
    · rw [hbefore] at hw
      exact absurd hw (by simp)
  owned := by
    intro g hg
    rw [hafter] at hg
    exact absurd hg (by simp)

/-- A key goes, and its file with it. -/
theorem Consistent.drop (h : Consistent place draft digest c) {k : Key} {s : Bool} {d : Digest}
    (hk : c.listed k s d) (hentry : Unlists c c' k)
    (hfiles : ∀ l f, c'.stands l f ↔ l ≠ place k ∧ c.stands l f) (hbytes : c'.bytes = c.bytes)
    (hidle : ∀ f, c.writing = some f → ¬ c.stands (draft (place k)) f)
    (hwriting : c'.writing = c.writing) : Consistent place draft digest c' := by
  -- Another key has another place.
  have hplace : ∀ k' s' d', c.listed k' s' d' → k' ≠ k → place k' ≠ place k := by
    intro k' s' d' hk' hne heq
    exact hne (h.sole k' s' d' k s d hk' hk heq).1
  constructor
  case one_place =>
    intro l l' g hl hl'
    exact h.one_place l l' g ((hfiles l g).mp hl).2 ((hfiles l' g).mp hl').2
  case one_file =>
    intro l g g' hg hg'
    exact h.one_file l g g' ((hfiles l g).mp hg).2 ((hfiles l g').mp hg').2
  case sole =>
    intro k1 s1 d1 k2 s2 d2 h1 h2
    exact h.sole k1 s1 d1 k2 s2 d2 ((hentry _ _ _).mp h1).2 ((hentry _ _ _).mp h2).2
  case stored =>
    intro k' s' d' hk'
    obtain ⟨hne, hk'⟩ := (hentry k' s' d').mp hk'
    obtain ⟨f, hf, hdigest⟩ := h.stored k' s' d' hk'
    exact ⟨f, (hfiles _ f).mpr ⟨hplace k' s' d' hk' hne, hf⟩, by rwa [hbytes]⟩
  case known =>
    intro l f hf
    obtain ⟨hl, hf⟩ := (hfiles l f).mp hf
    rcases h.known l f hf with ⟨k', s', d', hk', rfl⟩ | ⟨k', d', hk', rfl, hw⟩
    · left
      have hne : k' ≠ k := fun hkk => hl (hkk ▸ rfl)
      exact ⟨k', s', d', (hentry _ _ _).mpr ⟨hne, hk'⟩, rfl⟩
    · right
      have hne : k' ≠ k := fun hkk => hidle f hw (hkk ▸ hf)
      exact ⟨k', d', (hentry _ _ _).mpr ⟨hne, hk'⟩, rfl, hwriting.trans hw⟩
  case owned =>
    intro f hf
    rw [hwriting] at hf
    rcases h.owned f hf with hnone | ⟨k', d', hk', hf'⟩ | ⟨k', d', hk', hf', hfree⟩
    · exact Or.inl fun l hl => hnone l ((hfiles l f).mp hl).2
    · by_cases hkk : k' = k
      · -- The file that is being written loses its name.
        left
        intro l hl
        obtain ⟨hne, hl⟩ := (hfiles l f).mp hl
        exact hne (hkk ▸ h.one_place _ _ f hl hf')
      · right; left
        exact ⟨k', d', (hentry _ _ _).mpr ⟨hkk, hk'⟩,
          (hfiles _ f).mpr ⟨hplace k' false d' hk' hkk, hf'⟩⟩
    · right; right
      have hkk : k' ≠ k := fun hkk => hidle f hf (hkk ▸ hf')
      refine ⟨k', d', (hentry _ _ _).mpr ⟨hkk, hk'⟩,
        (hfiles _ f).mpr ⟨fun heq => hfree k s d hk heq.symm, hf'⟩, ?_⟩
      intro k'' s'' d'' hk''
      exact hfree k'' s'' d'' ((hentry _ _ _).mp hk'').2

/-- One step of any kind. -/
theorem Consistent.step (h : Consistent place draft digest c)
    (hstep : Step place draft digest c c') :
    Consistent place draft digest c' := by
  cases hstep with
  | write hlisted hfiles hwriting hbytes => exact h.write hlisted hfiles hwriting hbytes
  | enter k d f hentry hfiles hbytes hsole hfile hplace hbefore hafter =>
      exact h.enter hentry hfiles hbytes hsole hfile hplace hbefore hafter
  | begin k s d d' f hk hentry hfiles hbytes hfree hnew hbefore hafter =>
      exact h.begin hk hentry hfiles hbytes hfree hnew hbefore hafter
  | replace k d f hk hlisted hdraft hfiles hbytes hfree hbefore hafter =>
      exact h.replace hk hlisted hdraft hfiles hbytes hfree hbefore hafter
  | settle k d d' f hk hentry hfiles hbytes hfile hdigest hbefore hafter =>
      exact h.settle hk hentry hfiles hbytes hfile hdigest hbefore hafter
  | drop k s d hk hentry hfiles hbytes hidle hwriting =>
      exact h.drop hk hentry hfiles hbytes hidle hwriting

/-- The induction rule: every run of steps keeps the invariant. -/
theorem Consistent.steps (h : Consistent place draft digest c)
    (hsteps : Relation.ReflTransGen (Step place draft digest) c c') :
    Consistent place draft digest c' := by
  induction hsteps with
  | refl => exact h
  | tail _ hstep ih => exact ih.step hstep

end Catalog

end RemoteBackup.Lib
