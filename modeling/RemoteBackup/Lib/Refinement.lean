import RemoteBackup.Lib.Run

/-!
# `RemoteBackup.Lib.Refinement`: runs of one system as runs of another

Two systems, the second with fewer and larger events. `Refinement` asks for a relation between
the states of the first and the histories of the second, and that every event of the first
extends the history by some events of the second: by none where it does not show.

`Refinement.run` is the induction rule: every run of the first system has a history, and a longer
run has a longer one. `Refinement.carries` brings an invariant of the second system over.
-/

set_option autoImplicit false

namespace RemoteBackup.Lib

variable {σ ε τ φ : Type} (step : σ → ε → σ)

/-- A relation between the states of a system and histories, which every event extends. -/
structure Refinement (R : σ → List φ → Prop) : Prop where
  extends_ : ∀ s fs e, R s fs → ∃ gs, R (step s e) (fs ++ gs)

variable {step}

namespace Refinement

variable {R : σ → List φ → Prop} (h : Refinement step R)
include h

/-- Every run extends the history. -/
theorem run {s : σ} {fs : List φ} (hR : R s fs) (es : List ε) :
    ∃ gs, R (Lib.run step s es) (fs ++ gs) := by
  induction es generalizing s fs with
  | nil => exact ⟨[], by simpa [Lib.run] using hR⟩
  | cons e es ih =>
      obtain ⟨gs, hstep⟩ := h.extends_ s fs e hR
      obtain ⟨gs', hrun⟩ := ih hstep
      exact ⟨gs ++ gs', by rwa [← List.append_assoc]⟩

/-- What holds in every state of the second system holds at the end of the history. -/
theorem carries {astep : τ → φ → τ} {I : τ → Prop} {s : σ} {t : τ} (hR : R s []) (ht : I t)
    (hI : ∀ t f, I t → I (astep t f)) (es : List ε) :
    ∃ fs, R (Lib.run step s es) fs ∧ I (Lib.run astep t fs) := by
  obtain ⟨fs, hrun⟩ := h.run hR es
  exact ⟨fs, hrun, (invariant_always ht hI fs).1⟩

end Refinement

end RemoteBackup.Lib
