import Mathlib.Tactic.Common

/-!
# `RemoteBackup.Lib.Run`: runs of a deterministic system

A system is a step function on states and events. `run` is the state after a list of
events. `Along P s es` says that `P` holds of every step of the run: of the state before it
and its event.

`along_iff` reads `Along` at one position. `invariant` is the induction rule for properties
of states: what every step that meets a condition keeps holds after every run whose steps
all meet it, and `invariant_always` is the rule without a condition. `along_congr` carries an
equivalence of two step properties to runs.
-/

set_option autoImplicit false

namespace RemoteBackup.Lib

variable {σ ε : Type} (step : σ → ε → σ)

/-- The state after a list of events. -/
def run (s : σ) (es : List ε) : σ := es.foldl step s

/-- A property of every step of a run: of the state before the step and its event. -/
def Along (P : σ → ε → Prop) : σ → List ε → Prop
  | _, [] => True
  | s, e :: es => P s e ∧ Along P (step s e) es

variable {step}

/-- Two runs after one another are one run. -/
theorem run_append (s : σ) (es fs : List ε) : run step s (es ++ fs) = run step (run step s es) fs :=
  List.foldl_append

/-- A run of one event is one step. -/
theorem run_singleton (s : σ) (e : ε) : run step s [e] = step s e := rfl

/-- `Along P` holds when `P` holds at every position of the run. -/
theorem along_iff (P : σ → ε → Prop) (s : σ) (es : List ε) :
    Along step P s es ↔ ∀ pre e post, es = pre ++ e :: post → P (run step s pre) e := by
  induction es generalizing s with
  | nil => simp [Along]
  | cons a es ih =>
      rw [Along, ih]
      constructor
      · rintro ⟨ha, hrest⟩ pre e post h
        cases pre with
        | nil =>
            obtain ⟨rfl, rfl⟩ := List.cons.inj h
            exact ha
        | cons b pre =>
            obtain ⟨rfl, rfl⟩ := List.cons.inj h
            exact hrest pre e post rfl
      · intro h
        exact ⟨h [] a es rfl, fun pre e post hes => h (a :: pre) e post (by rw [hes]; rfl)⟩

/-- Two step properties that agree under an invariant of the system hold along the same
runs. -/
theorem along_congr {P Q I : σ → ε → Prop} {s : σ} {es : List ε} (hI : Along step I s es)
    (h : ∀ s e, I s e → (P s e ↔ Q s e)) : Along step P s es ↔ Along step Q s es := by
  induction es generalizing s with
  | nil => exact Iff.rfl
  | cons e es ih =>
      rw [Along, Along, h s e hI.1, ih hI.2]

/-- The invariant rule: what every step that meets `C` keeps holds after every run whose
steps all meet `C`, and before each of them. -/
theorem invariant {I : σ → Prop} {C : σ → ε → Prop} {s : σ} {es : List ε} (hs : I s)
    (hstep : ∀ s e, I s → C s e → I (step s e)) (hC : Along step C s es) :
    I (run step s es) ∧ Along step (fun s _ => I s) s es := by
  induction es generalizing s with
  | nil => exact ⟨hs, trivial⟩
  | cons e es ih =>
      obtain ⟨hrun, halong⟩ := ih (hstep s e hs hC.1) hC.2
      exact ⟨hrun, hs, halong⟩

/-- A property of every step holds along every run. -/
theorem along_of_forall {P : σ → ε → Prop} (h : ∀ s e, P s e) (s : σ) (es : List ε) :
    Along step P s es := by
  rw [along_iff]
  exact fun pre e _ _ => h _ e

/-- A property of the events of a run. -/
theorem along_of_mem {P : ε → Prop} {es : List ε} (h : ∀ e ∈ es, P e) (s : σ) :
    Along step (fun _ e => P e) s es := by
  rw [along_iff]
  intro pre e post hes
  exact h e (by simp [hes])

/-- A condition on a run is one on both of its parts. -/
theorem along_append {P : σ → ε → Prop} {s : σ} {es fs : List ε} :
    Along step P s (es ++ fs) ↔ Along step P s es ∧ Along step P (run step s es) fs := by
  induction es generalizing s with
  | nil => exact (iff_of_eq (true_and _)).symm
  | cons e es ih =>
      rw [List.cons_append, Along, Along, ih, and_assoc]
      rfl

/-- Two conditions along a run are one. -/
theorem along_and {P Q : σ → ε → Prop} {s : σ} {es : List ε} (hP : Along step P s es)
    (hQ : Along step Q s es) : Along step (fun s e => P s e ∧ Q s e) s es := by
  rw [along_iff] at *
  exact fun pre e post hes => ⟨hP pre e post hes, hQ pre e post hes⟩

/-- The invariant rule without a condition: what every step keeps holds after every run, and
before each of its steps. -/
theorem invariant_always {I : σ → Prop} {s : σ} (hs : I s) (hstep : ∀ s e, I s → I (step s e))
    (es : List ε) : I (run step s es) ∧ Along step (fun s _ => I s) s es :=
  invariant hs (fun s e h _ => hstep s e h) (along_of_forall (fun _ _ => trivial) s es)

/-- The events of a run without those that are idle when they arrive. -/
def active (step : σ → ε → σ) (idle : σ → ε → Bool) : σ → List ε → List ε
  | _, [] => []
  | s, e :: es =>
      if idle s e then active step idle (step s e) es else e :: active step idle (step s e) es

/-- Events that change nothing when they arrive can be left out. -/
theorem run_active {idle : σ → ε → Bool} (h : ∀ s e, idle s e = true → step s e = s) (s : σ)
    (es : List ε) : run step s (active step idle s es) = run step s es := by
  induction es generalizing s with
  | nil => rfl
  | cons e es ih =>
      show _ = run step (step s e) es
      rw [active, ← ih]
      split
      · rename_i hidle
        rw [h s e hidle]
      · rfl

end RemoteBackup.Lib
