import Mathlib.Tactic.Common

/-!
# Runs of a deterministic system

A system is a step function that takes a state and an event to the next state. A run is a sequence of
events. What is said of the single steps of a run is said with `Along`; what is said of the states it
reaches follows from invariants.
-/

namespace Run

variable {σ ε : Type} (step : σ → ε → σ)

/-- The state after a sequence of events. -/
def after (s : σ) (es : List ε) : σ := es.foldl step s

/-- Every step of the run satisfies `P`, a property of the state before the step and its event. -/
def Along (P : σ → ε → Prop) : σ → List ε → Prop
  | _, [] => True
  | s, e :: es => P s e ∧ Along P (step s e) es

/-- Whether every step of a run satisfies a decidable property is decidable. -/
instance decidableAlong (P : σ → ε → Prop) [∀ s e, Decidable (P s e)] :
    ∀ (s : σ) (es : List ε), Decidable (Along step P s es)
  | _, [] => instDecidableTrue
  | s, e :: es => @instDecidableAnd (P s e) _ _ (decidableAlong P (step s e) es)

variable {step} {P Q R : σ → ε → Prop} {I : σ → Prop} {s : σ} {es : List ε}

@[simp] theorem after_nil : after step s [] = s := rfl

@[simp] theorem after_cons {e : ε} : after step s (e :: es) = after step (step s e) es := rfl

theorem after_append {fs : List ε} :
    after step s (es ++ fs) = after step (after step s es) fs := List.foldl_append

theorem along_append {fs : List ε} :
    Along step P s (es ++ fs) ↔ Along step P s es ∧ Along step P (after step s es) fs := by
  induction es generalizing s with
  | nil => simp [Along]
  | cons e es ih => simp [Along, ih, and_assoc]

/-- A property that every step of a run preserves holds at its end. -/
theorem invariant (hstep : ∀ s e, I s → P s e → I (step s e)) (hs : I s)
    (h : Along step P s es) : I (after step s es) := by
  induction es generalizing s with
  | nil => exact hs
  | cons e es ih => exact ih (hstep s e hs h.1) h.2

/-- A property that every step preserves holds at the end of every run. -/
theorem always (hstep : ∀ s e, I s → I (step s e)) (hs : I s) : I (after step s es) := by
  induction es generalizing s with
  | nil => exact hs
  | cons e es ih => exact ih (hstep s e hs)

/-- What follows from a property of steps in all states of an invariant holds along a run. -/
theorem along_of_invariant (hstep : ∀ s e, I s → P s e → I (step s e)) (hs : I s)
    (himp : ∀ s e, I s → P s e → Q s e) (h : Along step P s es) : Along step Q s es := by
  induction es generalizing s with
  | nil => trivial
  | cons e es ih => exact ⟨himp s e hs h.1, ih (hstep s e hs h.1) h.2⟩

/-- Two properties of steps that agree in all states of an invariant agree along a run. -/
theorem along_congr (hstep : ∀ s e, I s → R s e → I (step s e)) (hs : I s)
    (hR : Along step R s es) (hiff : ∀ s e, I s → R s e → (P s e ↔ Q s e)) :
    Along step P s es ↔ Along step Q s es := by
  induction es generalizing s with
  | nil => exact Iff.rfl
  | cons e es ih =>
    exact and_congr (hiff s e hs hR.1) (ih (hstep s e hs hR.1) hR.2)

/-- Two properties of steps that agree in all states of an invariant that one of them preserves agree
along a run. -/
theorem along_iff_of_invariant (hstep : ∀ s e, I s → Q s e → I (step s e)) (hs : I s)
    (hiff : ∀ s e, I s → (P s e ↔ Q s e)) : Along step P s es ↔ Along step Q s es := by
  induction es generalizing s with
  | nil => exact Iff.rfl
  | cons e es ih =>
    rw [Along, Along, hiff s e hs]
    exact and_congr_right fun hQ => ih (hstep s e hs hQ)

theorem along_and :
    Along step (fun s e => P s e ∧ Q s e) s es ↔ Along step P s es ∧ Along step Q s es := by
  induction es generalizing s with
  | nil => simp [Along]
  | cons e es ih =>
    simp only [Along, ih]
    exact and_and_and_comm

end Run
