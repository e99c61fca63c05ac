import Mathlib.Data.List.Infix

/-!
# `RemoteBackup.Lib.Regex`: patterns with greedy repetition and groups

Patterns over any alphabet, matched by backtracking. A pattern tries its ways to match the
beginning of a text in a fixed order, and a repetition tries the longest way first (`attempts`).
A full match is the first attempt that leaves nothing (`fullMatch`). `Pattern.Matches` says what
a pattern means, whatever the order.

* `mem_attempts_iff`: the attempts are the matches, and `fullMatch_isSome_iff`: a full match is
  found when there is one.
* `fullMatch_group_many_iff`: a greedy group is the longest one that leaves the rest of the pattern
  a match.
-/

set_option autoImplicit false

namespace RemoteBackup.Lib

variable {α β : Type}

/-- A character of a class, any number of them, one pattern behind another, and a group. -/
inductive Pattern (α : Type) where
  | one (c : α → Bool)
  | many (c : α → Bool)
  | seq (p q : Pattern α)
  | group (p : Pattern α)

/-- One way to match the beginning of a text, with the groups in their order. -/
structure Attempt (α : Type) where
  taken : List α
  rest : List α
  groups : List (List α)

/-- The splits of a text behind characters of a class, longest first. -/
def greedySplits (c : α → Bool) : List α → List (List α × List α)
  | [] => [([], [])]
  | a :: s =>
      if c a then (greedySplits c s).map (fun x => (a :: x.1, x.2)) ++ [([], a :: s)]
      else [([], a :: s)]

namespace Pattern

/-- The ways to match the beginning of a text, in the order of the backtracking. -/
def attempts : Pattern α → List α → List (Attempt α)
  | .one _, [] => []
  | .one c, a :: s => if c a then [⟨[a], s, []⟩] else []
  | .many c, s => (greedySplits c s).map fun x => ⟨x.1, x.2, []⟩
  | .seq p q, s =>
      (p.attempts s).flatMap fun x =>
        (q.attempts x.rest).map fun y => ⟨x.taken ++ y.taken, y.rest, x.groups ++ y.groups⟩
  | .group p, s => (p.attempts s).map fun x => ⟨x.taken, x.rest, x.taken :: x.groups⟩

/-- The groups of the first attempt that leaves nothing. -/
def fullMatch (p : Pattern α) (s : List α) : Option (List (List α)) :=
  ((p.attempts s).find? fun x => x.rest.isEmpty).map Attempt.groups

/-- The pattern matches the text with these groups. -/
inductive Matches : Pattern α → List α → List (List α) → Prop
  | one {c : α → Bool} {a : α} (h : c a = true) : Matches (.one c) [a] []
  | many {c : α → Bool} {s : List α} (h : ∀ a ∈ s, c a = true) : Matches (.many c) s []
  | seq {p q : Pattern α} {s t : List α} {gs hs : List (List α)} (hp : Matches p s gs)
      (hq : Matches q t hs) : Matches (.seq p q) (s ++ t) (gs ++ hs)
  | group {p : Pattern α} {s : List α} {gs : List (List α)} (hp : Matches p s gs) :
      Matches (.group p) s (s :: gs)

end Pattern

/-! ### Greedy splits -/

/-- The splits of a greedy repetition are those whose first part is all in the class. -/
theorem mem_greedySplits_iff {c : α → Bool} {s : List α} {x : List α × List α} :
    x ∈ greedySplits c s ↔ x.1 ++ x.2 = s ∧ ∀ a ∈ x.1, c a = true := by
  obtain ⟨g, rest⟩ := x
  induction s generalizing g with
  | nil =>
      rw [greedySplits, List.mem_singleton, Prod.mk.injEq, List.append_eq_nil_iff]
      constructor
      · rintro ⟨rfl, rfl⟩
        exact ⟨⟨rfl, rfl⟩, by simp⟩
      · exact fun h => h.1
  | cons a s ih =>
      cases g with
      | nil => cases hc : c a <;> simp [greedySplits, hc]
      | cons b g =>
          cases hc : c a with
          | false =>
              simp only [greedySplits, hc, Bool.false_eq_true, if_false, List.mem_singleton]
              constructor
              · intro h
                cases h
              · rintro ⟨h, hall⟩
                obtain ⟨rfl, -⟩ := List.cons.inj h
                exact absurd (hall b (by simp)) (by simp [hc])
          | true =>
              -- A character of the class goes to the front of every split of the rest.
              have hmem : (b :: g, rest) ∈ greedySplits c (a :: s) ↔
                  b = a ∧ (g, rest) ∈ greedySplits c s := by
                simp only [greedySplits, hc, if_true]
                simp [and_comm, eq_comm]
              rw [hmem, ih]
              simp only [List.cons_append, List.cons.injEq, List.mem_cons, forall_eq_or_imp]
              constructor
              · rintro ⟨rfl, hs, hall⟩
                exact ⟨⟨rfl, hs⟩, hc, hall⟩
              · rintro ⟨⟨rfl, hs⟩, -, hall⟩
                exact ⟨rfl, hs, hall⟩

/-- They get shorter. -/
theorem greedySplits_pairwise (c : α → Bool) (s : List α) :
    (greedySplits c s).Pairwise fun x y => y.1.length < x.1.length := by
  induction s with
  | nil => exact List.pairwise_singleton _ _
  | cons a s ih =>
      cases hc : c a with
      | false => simp [greedySplits, hc]
      | true =>
          simp only [greedySplits, hc, if_true, List.pairwise_append, List.pairwise_map]
          refine ⟨ih.imp fun h => by simpa using h, List.pairwise_singleton _ _, ?_⟩
          intro x hx y hy
          obtain ⟨x', -, rfl⟩ := List.mem_map.mp hx
          obtain rfl := List.mem_singleton.mp hy
          simp

/-- A search through the splits ends at the longest one with a result. -/
theorem findSome?_greedySplits_iff {c : α → Bool} {s : List α} {f : List α → List α → Option β}
    {b : β} :
    (greedySplits c s).findSome? (fun x => f x.1 x.2) = some b ↔
      ∃ g rest, g ++ rest = s ∧ (∀ a ∈ g, c a = true) ∧ f g rest = some b ∧
        ∀ g' rest', g' ++ rest' = s → (∀ a ∈ g', c a = true) → g.length < g'.length →
          f g' rest' = none := by
  rw [List.findSome?_eq_some_iff]
  have hsorted := greedySplits_pairwise c s
  constructor
  · rintro ⟨before, x, after, hsplits, hx, hbefore⟩
    obtain ⟨happend, hall⟩ := mem_greedySplits_iff.mp
      (hsplits ▸ List.mem_append_right before (List.mem_cons_self : x ∈ x :: after))
    refine ⟨x.1, x.2, happend, hall, hx, ?_⟩
    intro g' rest' happend' hall' hlonger
    have hmem : (g', rest') ∈ greedySplits c s := mem_greedySplits_iff.mpr ⟨happend', hall'⟩
    rw [hsplits, List.mem_append, List.mem_cons] at hmem
    rw [hsplits, List.pairwise_append, List.pairwise_cons] at hsorted
    rcases hmem with hmem | rfl | hmem
    · exact hbefore _ hmem
    · exact absurd hlonger (Nat.lt_irrefl _)
    · -- What comes later is shorter.
      exact absurd hlonger (Nat.lt_asymm (hsorted.2.1.1 _ hmem))
  · rintro ⟨g, rest, happend, hall, hg, hlonger⟩
    obtain ⟨before, after, hsplits⟩ :=
      List.append_of_mem (mem_greedySplits_iff (x := (g, rest)).mpr ⟨happend, hall⟩)
    refine ⟨before, (g, rest), after, hsplits, hg, ?_⟩
    intro x hx
    obtain ⟨happend', hall'⟩ := mem_greedySplits_iff.mp
      (hsplits ▸ List.mem_append_left ((g, rest) :: after) hx)
    rw [hsplits, List.pairwise_append] at hsorted
    exact hlonger x.1 x.2 happend' hall' (hsorted.2.2 x hx _ List.mem_cons_self)

/-! ### Attempts -/

namespace Pattern

/-- The attempts are the matches of the beginnings of the text. -/
theorem mem_attempts_iff {p : Pattern α} {s : List α} {x : Attempt α} :
    x ∈ p.attempts s ↔ x.taken ++ x.rest = s ∧ p.Matches x.taken x.groups := by
  induction p generalizing s x with
  | one c =>
      constructor
      · intro h
        cases s with
        | nil => simp [attempts] at h
        | cons a s =>
            rw [attempts] at h
            split at h
            · rename_i hc
              obtain rfl := List.mem_singleton.mp h
              exact ⟨rfl, .one hc⟩
            · simp at h
      · obtain ⟨taken, rest, groups⟩ := x
        rintro ⟨rfl, hmatch⟩
        cases hmatch with
        | one hc => simp [attempts, hc]
  | many c =>
      rw [attempts, List.mem_map]
      constructor
      · rintro ⟨y, hy, rfl⟩
        obtain ⟨happend, hall⟩ := mem_greedySplits_iff.mp hy
        exact ⟨happend, .many hall⟩
      · obtain ⟨taken, rest, groups⟩ := x
        rintro ⟨rfl, hmatch⟩
        cases hmatch with
        | many hall => exact ⟨(taken, rest), mem_greedySplits_iff.mpr ⟨rfl, hall⟩, rfl⟩
  -- The second pattern starts where the first one has ended.
  | seq p q ihp ihq =>
      simp only [attempts, List.mem_flatMap, List.mem_map]
      constructor
      · rintro ⟨y, hy, z, hz, rfl⟩
        obtain ⟨hs, hp⟩ := ihp.mp hy
        obtain ⟨hrest, hq⟩ := ihq.mp hz
        exact ⟨by rw [List.append_assoc, hrest, hs], .seq hp hq⟩
      · obtain ⟨taken, rest, groups⟩ := x
        rintro ⟨rfl, hmatch⟩
        cases hmatch with
        | @seq _ _ s t gs hs hp hq =>
            exact ⟨⟨s, t ++ rest, gs⟩, ihp.mpr ⟨(List.append_assoc s t rest).symm, hp⟩,
              ⟨t, rest, hs⟩, ihq.mpr ⟨rfl, hq⟩, rfl⟩
  | group p ih =>
      rw [attempts, List.mem_map]
      constructor
      · rintro ⟨y, hy, rfl⟩
        obtain ⟨hs, hp⟩ := ih.mp hy
        exact ⟨hs, .group hp⟩
      · obtain ⟨taken, rest, groups⟩ := x
        rintro ⟨rfl, hmatch⟩
        dsimp only at hmatch ⊢
        cases hmatch with
        | @group _ _ gs hp => exact ⟨⟨taken, rest, gs⟩, ih.mpr ⟨rfl, hp⟩, rfl⟩

/-- What a full match finds is a match. -/
theorem matches_of_fullMatch {p : Pattern α} {s : List α} {gs : List (List α)}
    (h : p.fullMatch s = some gs) : p.Matches s gs := by
  obtain ⟨x, hfind, rfl⟩ := Option.map_eq_some_iff.mp h
  obtain ⟨happend, hmatch⟩ := mem_attempts_iff.mp (List.mem_of_find?_eq_some hfind)
  have hrest : x.rest = [] := by simpa using List.find?_some hfind
  rw [hrest, List.append_nil] at happend
  rwa [← happend]

/-- A full match is found when there is one. -/
theorem fullMatch_isSome_iff {p : Pattern α} {s : List α} :
    (p.fullMatch s).isSome = true ↔ ∃ gs, p.Matches s gs := by
  constructor
  · intro h
    obtain ⟨gs, hgs⟩ := Option.isSome_iff_exists.mp h
    exact ⟨gs, matches_of_fullMatch hgs⟩
  · rintro ⟨gs, hmatch⟩
    rw [fullMatch, Option.isSome_map, List.find?_isSome]
    exact ⟨⟨s, [], gs⟩, mem_attempts_iff.mpr ⟨List.append_nil s, hmatch⟩, rfl⟩

/-- A full match of two patterns is the first attempt of the first one behind which the second one
has a full match. -/
theorem fullMatch_seq (p q : Pattern α) (s : List α) :
    (seq p q).fullMatch s =
      (p.attempts s).findSome? fun x => (q.fullMatch x.rest).map (x.groups ++ ·) := by
  rw [fullMatch, attempts, List.find?_flatMap, List.map_findSome?]
  congr 1
  funext x
  simp only [Function.comp_apply, List.find?_map, Option.map_map, fullMatch]
  rfl

/-- A full match where the text has one match only. -/
theorem fullMatch_eq_some {p : Pattern α} {s : List α} {gs : List (List α)} (h : p.Matches s gs)
    (hunique : ∀ hs, p.Matches s hs → hs = gs) : p.fullMatch s = some gs := by
  obtain ⟨hs, hfound⟩ := Option.isSome_iff_exists.mp (fullMatch_isSome_iff.mpr ⟨gs, h⟩)
  rw [hfound, hunique hs (matches_of_fullMatch hfound)]

/-- A greedy group gives characters back until the rest of the pattern has a full match. -/
theorem fullMatch_group_many (c : α → Bool) (q : Pattern α) (s : List α) :
    (seq (group (many c)) q).fullMatch s =
      (greedySplits c s).findSome? fun x => (q.fullMatch x.2).map (x.1 :: ·) := by
  rw [fullMatch_seq, attempts, attempts, List.map_map, List.findSome?_map]
  rfl

/-- The group is then the longest one that leaves the rest of the pattern a full match. -/
theorem fullMatch_group_many_iff {c : α → Bool} {q : Pattern α} {s : List α} {gs : List (List α)} :
    (seq (group (many c)) q).fullMatch s = some gs ↔
      ∃ g rest hs, g ++ rest = s ∧ (∀ a ∈ g, c a = true) ∧ q.fullMatch rest = some hs ∧
        gs = g :: hs ∧ ∀ g' rest', g' ++ rest' = s → (∀ a ∈ g', c a = true) →
          g.length < g'.length → q.fullMatch rest' = none := by
  rw [fullMatch_group_many,
    findSome?_greedySplits_iff (f := fun g rest => (q.fullMatch rest).map (g :: ·))]
  simp only [Option.map_eq_some_iff, Option.map_eq_none_iff]
  constructor
  · rintro ⟨g, rest, happend, hall, ⟨hs, hq, rfl⟩, hlonger⟩
    exact ⟨g, rest, hs, happend, hall, hq, rfl, hlonger⟩
  · rintro ⟨g, rest, hs, happend, hall, hq, rfl, hlonger⟩
    exact ⟨g, rest, happend, hall, ⟨hs, hq, rfl⟩, hlonger⟩

end Pattern

end RemoteBackup.Lib
