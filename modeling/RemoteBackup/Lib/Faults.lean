import Mathlib.Tactic.Common

/-!
# `RemoteBackup.Lib.Faults`: the first call that fails

A program makes calls one after another. Whether a call fails may depend on the calls before it,
which `fails` is given latest first. `Faultless` says that none of a list of calls fails, and
`FirstFault` which one is the first that does.

The two rules for `++` follow a program that makes the calls of one part after those of another.
-/

set_option autoImplicit false

namespace RemoteBackup.Lib

variable {α : Type} (fails : List α → α → Bool)

/-- No call of the list fails, when these calls were made before. -/
def Faultless : List α → List α → Prop
  | _, [] => True
  | history, c :: cs => fails history c = false ∧ Faultless (c :: history) cs

/-- The first call of the list that fails, when these calls were made before. -/
def FirstFault (fault : α) : List α → List α → Prop
  | _, [] => False
  | history, c :: cs =>
      (fails history c = true ∧ c = fault) ∨
        (fails history c = false ∧ FirstFault fault (c :: history) cs)

variable {fails}

/-- Whether a fault is the first can be evaluated, call by call. -/
instance FirstFault.decidable [DecidableEq α] (fault : α) :
    (history cs : List α) → Decidable (FirstFault fails fault history cs)
  | _, [] => .isFalse id
  | history, c :: cs =>
      have := FirstFault.decidable fault (c :: history) cs
      inferInstanceAs (Decidable ((fails history c = true ∧ c = fault) ∨
        (fails history c = false ∧ FirstFault fails fault (c :: history) cs)))

/-- Two parts are faultless one after the other. -/
theorem faultless_append {history cs ds : List α} :
    Faultless fails history (cs ++ ds) ↔
      Faultless fails history cs ∧ Faultless fails (cs.reverse ++ history) ds := by
  induction cs generalizing history with
  | nil => simp [Faultless]
  | cons c cs ih => simp [Faultless, ih, and_assoc]

/-- The first fault is in the first part, or in the second after a faultless first. -/
theorem firstFault_append {fault : α} {history cs ds : List α} :
    FirstFault fails fault history (cs ++ ds) ↔ FirstFault fails fault history cs ∨
      (Faultless fails history cs ∧ FirstFault fails fault (cs.reverse ++ history) ds) := by
  induction cs generalizing history with
  | nil => simp [Faultless, FirstFault]
  | cons c cs ih =>
      simp only [List.cons_append, FirstFault, Faultless, ih, List.reverse_cons, List.append_assoc,
        List.nil_append]
      tauto

/-- Either no call fails, or one is the first that does. -/
theorem faultless_or_firstFault (fails : List α → α → Bool) (history cs : List α) :
    Faultless fails history cs ∨ ∃ fault, FirstFault fails fault history cs := by
  induction cs generalizing history with
  | nil => exact Or.inl trivial
  | cons c cs ih =>
      cases hc : fails history c with
      | true => exact Or.inr ⟨c, Or.inl ⟨hc, rfl⟩⟩
      | false =>
          rcases ih (c :: history) with hclear | ⟨fault, hfault⟩
          · exact Or.inl ⟨hc, hclear⟩
          · exact Or.inr ⟨fault, Or.inr ⟨hc, hfault⟩⟩

/-- Where nothing fails there is no first fault. -/
theorem not_firstFault {fault : α} {history cs : List α}
    (h : ∀ history c, fails history c = false) : ¬ FirstFault fails fault history cs := by
  induction cs generalizing history with
  | nil => exact id
  | cons c cs ih =>
      rintro (⟨hfails, -⟩ | ⟨-, hrest⟩)
      · rw [h] at hfails
        exact absurd hfails (by simp)
      · exact ih hrest

end RemoteBackup.Lib
