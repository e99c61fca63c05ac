import RemoteBackup.Lib.Run

/-!
# `RemoteBackup.Lib.Unwinding`: one party among others

A run that serves several parties, seen by one of them. `mine` picks the events of that party,
and `out` is what the party gets to see at an event. The party is not interfered with when the
run that keeps only its own events shows it the same.

`Unwinding` asks for a relation between the states of the two runs that one event keeps: an
event of the party on both sides, an event of another party on one side. `Unwinding.run` is the
induction rule: the relation then holds after every run, and the outputs are the same.
-/

set_option autoImplicit false

namespace RemoteBackup.Lib

variable {σ ε ω : Type} (step : σ → ε → σ) (out : σ → ε → List ω) (mine : ε → Bool)

/-- What the party sees along a run: the outputs at its own events. -/
def outputs : σ → List ε → List ω
  | _, [] => []
  | s, e :: es => (if mine e then out s e else []) ++ outputs (step s e) es

/-- A relation between the states of a run and those of the run of the party alone. `C` is what
is known of every step of the first run. -/
structure Unwinding (C : σ → ε → Prop) (R : σ → σ → Prop) : Prop where
  own : ∀ s t e, R s t → C s e → mine e = true → R (step s e) (step t e) ∧ out t e = out s e
  other : ∀ s t e, R s t → C s e → mine e = false → R (step s e) t

variable {step out mine}

/-- The outputs of two runs after one another follow one another. -/
theorem outputs_append (s : σ) (es fs : List ε) :
    outputs step out mine s (es ++ fs) =
      outputs step out mine s es ++ outputs step out mine (Lib.run step s es) fs := by
  induction es generalizing s with
  | nil => rfl
  | cons e es ih =>
      rw [List.cons_append, outputs, outputs, ih, List.append_assoc]
      rfl

/-- The two runs stay related, and show the party the same. -/
theorem Unwinding.run {C : σ → ε → Prop} {R : σ → σ → Prop} (h : Unwinding step out mine C R)
    {s t : σ} {es : List ε} (hR : R s t) (hC : Along step C s es) :
    R (run step s es) (Lib.run step t (es.filter mine)) ∧
      outputs step out mine t (es.filter mine) = outputs step out mine s es := by
  induction es generalizing s t with
  | nil => exact ⟨hR, rfl⟩
  | cons e es ih =>
      obtain ⟨hCe, hC⟩ := hC
      cases hmine : mine e with
      | true =>
          obtain ⟨hR', hout⟩ := h.own s t e hR hCe hmine
          obtain ⟨hrun, houtputs⟩ := ih hR' hC
          rw [List.filter_cons_of_pos hmine]
          refine ⟨hrun, ?_⟩
          rw [outputs, outputs, hout, houtputs]
      | false =>
          obtain ⟨hrun, houtputs⟩ := ih (h.other s t e hR hCe hmine) hC
          rw [List.filter_cons_of_neg (by simp [hmine])]
          refine ⟨hrun, ?_⟩
          rw [houtputs, outputs, hmine]
          rfl

end RemoteBackup.Lib
