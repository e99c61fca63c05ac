import Mathlib.Data.Fintype.Pigeonhole
import Mathlib.Tactic.Common

/-!
# `RemoteBackup.Lib.Lasso`: walks that come back to where they were

A walk whose next step depends only on the place it is at, with finitely many places to step from.
`exists_same_place` says that a long walk meets a place twice, and `endless` that it can then go on
for ever, around the loop.
-/

set_option autoImplicit false

namespace RemoteBackup.Lib.Lasso

variable {σ : Type} {step : σ → σ → Prop}

/-- The first `n` steps of a walk from `s`. -/
structure Walk (step : σ → σ → Prop) (s : σ) (n : Nat) (p : Nat → σ) : Prop where
  start : p 0 = s
  steps : ∀ i, i < n → step (p i) (p (i + 1))

/-- The first part of a walk is a walk. -/
theorem Walk.mono {s : σ} {n k : Nat} {p : Nat → σ} (h : Walk step s n p) (hk : k ≤ n) :
    Walk step s k p :=
  ⟨h.start, fun i hi => h.steps i (by omega)⟩

/-- A step in front of a walk. -/
theorem Walk.cons {s t : σ} {n : Nat} {p : Nat → σ} (hstep : step s t) (h : Walk step t n p) :
    Walk step s (n + 1) (fun i => i.casesOn s p) where
  start := rfl
  steps := by
    intro i hi
    cases i with
    | zero =>
        show step s (p 0)
        rw [h.start]
        exact hstep
    | succ i => exact h.steps i (by omega)

/-- A walk behind its first step. -/
theorem Walk.tail {s : σ} {n : Nat} {p : Nat → σ} (h : Walk step s (n + 1) p) :
    step s (p 1) ∧ Walk step (p 1) n (fun i => p (i + 1)) := by
  refine ⟨?_, rfl, fun i hi => h.steps (i + 1) (by omega)⟩
  rw [← h.start]
  exact h.steps 0 (by omega)

/-- What every step keeps holds along a walk. -/
theorem Walk.invariant {I : σ → Prop} (hI : ∀ s t, I s → step s t → I t) {s : σ} (hs : I s)
    {n : Nat} {p : Nat → σ} (h : Walk step s n p) {i : Nat} (hi : i ≤ n) : I (p i) := by
  induction i with
  | zero =>
      rw [h.start]
      exact hs
  | succ i ih => exact hI _ _ (ih (by omega)) (h.steps i (by omega))

/-- Of more numbers below `n` than there are, two are equal. -/
theorem exists_same_place {n : Nat} (place : Nat → Nat) (hplace : ∀ i, i ≤ n → place i < n) :
    ∃ i j, i < j ∧ j ≤ n ∧ place i = place j := by
  obtain ⟨i, j, hne, hsame⟩ := Fintype.exists_ne_map_eq_of_card_lt
    (fun k : Fin (n + 1) => (⟨place k, hplace k (by omega)⟩ : Fin n)) (by simp)
  have hsame' : place i = place j := congrArg Fin.val hsame
  rcases Nat.lt_or_gt_of_ne (Fin.val_ne_of_ne hne) with hlt | hgt
  · exact ⟨i, j, hlt, by omega, hsame'⟩
  · exact ⟨j, i, hgt, by omega, hsame'.symm⟩

/-- The positions of a walk that goes around the loop from `i` to `j`. -/
def around (i j : Nat) : Nat → Nat
  | 0 => 0
  | m + 1 => if around i j m = j then i + 1 else around i j m + 1

/-- Going around stays within the lasso. -/
theorem around_le {i j : Nat} (h : i < j) (m : Nat) : around i j m ≤ j := by
  induction m with
  | zero => exact Nat.zero_le j
  | succ m ih =>
      rw [around]
      split
      · exact h
      · omega

/-- A walk of more steps than there are places goes on for ever. -/
theorem endless {I : σ → Prop} (hI : ∀ s t, I s → step s t → I t) (place : σ → Nat) {n : Nat}
    (hplace : ∀ s t, I s → step s t → place s < n)
    (hsame : ∀ s s' t t', I s → I s' → place s = place s' → step s t → step s' t' → t = t')
    {s : σ} (hs : I s) {p : Nat → σ} (h : Walk step s (n + 1) p) : ∃ q, ∀ k, Walk step s k q := by
  have hinv : ∀ i, i ≤ n → I (p i) := fun i hi => h.invariant hI hs (by omega)
  obtain ⟨i, j, hlt, hj, hij⟩ := exists_same_place (fun i => place (p i))
    fun i hi => hplace _ _ (hinv i hi) (h.steps i (by omega))
  refine ⟨fun m => p (around i j m), fun k => ⟨h.start, fun m _ => ?_⟩⟩
  have hle := around_le hlt m
  show step (p (around i j m)) (p (around i j (m + 1)))
  rw [around]
  split
  · -- At the end of the loop the walk steps as it did at its beginning.
    rename_i hend
    have hstep := h.steps j (by omega)
    rw [hend, hsame _ _ _ _ (hinv i (by omega)) (hinv j hj) hij (h.steps i (by omega)) hstep]
    exact hstep
  · exact h.steps _ (by omega)

end RemoteBackup.Lib.Lasso
