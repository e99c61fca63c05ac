import RemoteBackup.Lib.Regex
import RemoteBackup.Utilities.Tools

/-!
# `RemoteBackup.Proofs.Signs`: a sign and its two parts

`split_sign` matches a sign with a regular expression whose two groups can both take a NUL. The
first group is greedy, so the last NUL of the sign separates the parts.

* `matchAndParse_eq_fullMatch`: `match_and_parse` is the backtracking match of the expression.
* `matchAndParse_eq_some_iff`: the parts that it finds.
* `signs_inverse`: `create_sign` and `split_sign` undo each other.
-/

set_option autoImplicit false

namespace RemoteBackup.Proofs

open Lib

/-! ### The expression -/

/-- `\\x00(.*)`. -/
def digestPattern : Pattern UInt8 := .seq (.one fun b => b = nul) (.group (.many fun _ => true))

/-- `(.*)\\x00(.*)`. -/
def signPattern : Pattern UInt8 := .seq (.group (.many fun _ => true)) digestPattern

/-- The second pattern matches the separator and the digest after it. -/
theorem digestPattern_matches_iff {s : Bytes} {gs : List Bytes} :
    digestPattern.Matches s gs ↔ ∃ digest, s = nul :: digest ∧ gs = [digest] := by
  constructor
  · intro h
    cases h with
    | @seq _ _ _ digest _ _ hone hgroup =>
        cases hone with
        | one hb =>
            cases hgroup with
            | group hmany =>
                cases hmany with
                | many => exact ⟨digest, by simpa using hb, rfl⟩
  · rintro ⟨digest, rfl, rfl⟩
    exact @Pattern.Matches.seq _ _ _ [nul] digest [] [digest] (.one (by decide))
      (.group (.many (by simp)))

/-- Its match looks at the first byte only. -/
theorem digestPattern_fullMatch (s : Bytes) :
    digestPattern.fullMatch s =
      match s with
      | b :: digest => if b = nul then some [digest] else none
      | [] => none := by
  have hnone : (∀ digest, s ≠ nul :: digest) → digestPattern.fullMatch s = none := by
    intro h
    rw [← Option.not_isSome_iff_eq_none, Pattern.fullMatch_isSome_iff]
    rintro ⟨gs, hmatch⟩
    obtain ⟨digest, hs, -⟩ := digestPattern_matches_iff.mp hmatch
    exact h digest hs
  cases s with
  | nil => exact hnone (by simp)
  | cons b digest =>
      by_cases hb : b = nul
      · subst hb
        refine Pattern.fullMatch_eq_some (digestPattern_matches_iff.mpr ⟨digest, rfl, rfl⟩) ?_
        intro hs hmatch
        obtain ⟨digest', h, rfl⟩ := digestPattern_matches_iff.mp hmatch
        rw [(List.cons.inj h).2]
      · simp only [hb, if_false]
        exact hnone fun digest' h => hb (List.cons.inj h).1

/-- The prefixes of a line, longest first, are the ways of `.*`. -/
theorem range_splits (line : Bytes) :
    (List.range (line.length + 1)).reverse.map (fun k => (line.take k, line.drop k)) =
      greedySplits (fun _ => true) line := by
  induction line with
  | nil => rfl
  | cons b line ih =>
      rw [greedySplits, if_pos rfl, ← ih, List.length_cons, List.range_succ_eq_map,
        List.reverse_cons, List.map_append, ← List.map_reverse, List.map_map, List.map_map]
      rfl

/-- `match_and_parse` is the full match of the expression. -/
theorem matchAndParse_eq_fullMatch (line : Bytes) :
    (matchAndParse line).map (fun parts => [parts.1, parts.2]) = signPattern.fullMatch line := by
  rw [signPattern, Pattern.fullMatch_group_many, ← range_splits, List.findSome?_map, matchAndParse,
    List.map_findSome?]
  congr 1
  funext k
  simp only [Function.comp_apply, digestPattern_fullMatch]
  cases line.drop k with
  | nil => rfl
  | cons b rest =>
      by_cases hb : b = nul
      · simp [hb]
      · simp [hb]

/-! ### The two parts -/

/-- The last NUL of a sign separates its parts. -/
theorem matchAndParse_eq_some_iff {sign path digest : Bytes} :
    matchAndParse sign = some (path, digest) ↔ sign = path ++ nul :: digest ∧ nul ∉ digest := by
  have hmap : matchAndParse sign = some (path, digest) ↔
      signPattern.fullMatch sign = some [path, digest] := by
    rw [← matchAndParse_eq_fullMatch, Option.map_eq_some_iff]
    constructor
    · exact fun h => ⟨_, h, rfl⟩
    · rintro ⟨parts, h, heq⟩
      simp only [List.cons.injEq, and_true] at heq
      rw [h, ← heq.1, ← heq.2]
  have hrest : ∀ rest d, digestPattern.fullMatch rest = some [d] ↔ rest = nul :: d := by
    intro rest d
    rw [digestPattern_fullMatch]
    cases rest with
    | nil => simp
    | cons b rest =>
        by_cases hb : b = nul
        · simp [hb]
        · simp [hb]
  rw [hmap, signPattern, Pattern.fullMatch_group_many_iff]
  constructor
  · rintro ⟨g, rest, hs, rfl, -, hq, heq, hlonger⟩
    obtain ⟨rfl, rfl⟩ := List.cons.inj heq
    obtain rfl := (hrest rest digest).mp hq
    refine ⟨rfl, fun hnul => ?_⟩
    -- Another NUL in the digest would have left the path longer.
    obtain ⟨pre, post, rfl⟩ := List.append_of_mem hnul
    have hnone := hlonger (path ++ nul :: pre) (nul :: post) (by simp) (by simp) (by simp)
    rw [(hrest (nul :: post) post).mpr rfl] at hnone
    cases hnone
  · rintro ⟨rfl, hnul⟩
    refine ⟨path, nul :: digest, [digest], rfl, by simp, (hrest _ _).mpr rfl, rfl, ?_⟩
    intro g rest happend _ hlonger
    rw [digestPattern_fullMatch]
    cases rest with
    | nil => rfl
    | cons b rest =>
        refine if_neg ?_
        rintro rfl
        -- The longer path ends inside the digest, and so does the NUL behind it.
        obtain ⟨tail, rfl⟩ : path ++ [nul] <+: g :=
          List.prefix_of_prefix_length_le ⟨digest, by simp⟩ ⟨nul :: rest, happend⟩
            (by rw [List.length_append]; exact hlonger)
        have hdigest : tail ++ nul :: rest = digest := by simpa using happend
        exact hnul (hdigest ▸ by simp)

/-- A sign that holds a NUL matches, with whatever parts. -/
theorem matchAndParse_eq_none_iff {sign : Bytes} : matchAndParse sign = none ↔ nul ∉ sign := by
  constructor
  · intro h hnul
    obtain ⟨path, digest, rfl⟩ := List.append_of_mem hnul
    have hmatch : signPattern.Matches (path ++ nul :: digest) [path, digest] :=
      @Pattern.Matches.seq _ _ _ path (nul :: digest) [path] [digest] (.group (.many (by simp)))
        (digestPattern_matches_iff.mpr ⟨_, rfl, rfl⟩)
    have hfound := Pattern.fullMatch_isSome_iff.mpr ⟨_, hmatch⟩
    rw [← matchAndParse_eq_fullMatch, h] at hfound
    cases hfound
  · intro h
    cases hparts : matchAndParse sign with
    | none => rfl
    | some parts =>
        obtain ⟨rfl, -⟩ := matchAndParse_eq_some_iff.mp hparts
        exact absurd (by simp) h

/-- A sign is split exactly where it was joined. -/
theorem splitSign_eq_ok_iff {sign path digest : Bytes} :
    splitSign sign = .ok (path, digest) ↔ sign = createSign path digest ∧ nul ∉ digest := by
  rw [createSign, ← matchAndParse_eq_some_iff, splitSign]
  cases matchAndParse sign with
  | none => simp
  | some parts => simp

/-- A sign is split where it was joined, when the digest has no separator. -/
theorem splitSign_createSign {digest : Bytes} (h : nul ∉ digest) (path : Path) :
    splitSign (createSign path digest) = .ok (path, digest) :=
  splitSign_eq_ok_iff.mpr ⟨rfl, h⟩

/-- The sign parser throws exactly on a sign without a separator. -/
theorem splitSign_error_iff (sign : Bytes) (e : Halt) :
    splitSign sign = .error e ↔ e = .uncaughtException ∧ nul ∉ sign := by
  rw [← matchAndParse_eq_none_iff, splitSign]
  cases matchAndParse sign with
  | some parts => simp
  | none => simp [eq_comm]

/-- **A sign and its parts.** For all bytes: a path and a digest without a NUL come back from their
sign; a string with a NUL is the sign of what it is split into, whose digest has none; and only a
string without a NUL throws. -/
theorem signs_inverse (path digest sign : Bytes) :
    (nul ∉ digest → splitSign (createSign path digest) = .ok (path, digest)) ∧
      (nul ∈ sign → ∃ path' digest', splitSign sign = .ok (path', digest') ∧
        createSign path' digest' = sign ∧ nul ∉ digest') ∧
      ((∃ e, splitSign sign = .error e) ↔ nul ∉ sign) := by
  refine ⟨fun h => splitSign_createSign h path, fun h => ?_, ?_⟩
  · cases hsplit : splitSign sign with
    | error e => exact absurd h ((splitSign_error_iff sign e).mp hsplit).2
    | ok parts =>
        obtain ⟨hsign, hdigest⟩ := splitSign_eq_ok_iff.mp hsplit
        exact ⟨parts.1, parts.2, rfl, hsign.symm, hdigest⟩
  · constructor
    · rintro ⟨e, he⟩
      exact ((splitSign_error_iff sign e).mp he).2
    · exact fun h => ⟨_, (splitSign_error_iff sign _).mpr ⟨rfl, h⟩⟩

/-- A path with a newline and a NUL, and a sign of three NULs. -/
theorem signs_inverse_nuls :
    splitSign (createSign [97, newline, nul, 98] (ascii "00")) =
        .ok ([97, newline, nul, 98], ascii "00") ∧
      ∃ path digest, splitSign [nul, nul, nul] = .ok (path, digest) ∧
        createSign path digest = [nul, nul, nul] ∧ nul ∉ digest :=
  ⟨(signs_inverse [97, newline, nul, 98] (ascii "00") [nul, nul, nul]).1 (by decide),
    (signs_inverse [97, newline, nul, 98] (ascii "00") [nul, nul, nul]).2.1 (by decide)⟩

end RemoteBackup.Proofs
