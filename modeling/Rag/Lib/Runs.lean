/-!
Runs of a deterministic step function over a list of events.

`Throughout` speaks of the states a run goes through and `EachStep` of its steps, each
with the state it is taken in. When every step out of a good state leads to a good state
exactly if it meets a condition, a run stays good exactly if all its steps meet it.
-/

namespace Run

variable {σ ε : Type} (step : σ → ε → σ)

/-- `P` holds in the first state and in every state reached. -/
def Throughout (P : σ → Prop) : σ → List ε → Prop
  | s, [] => P s
  | s, e :: es => P s ∧ Throughout P (step s e) es

/-- `C` holds of every step taken. -/
def EachStep (C : σ → ε → Prop) : σ → List ε → Prop
  | _, [] => True
  | s, e :: es => C s e ∧ EachStep C (step s e) es

/-- `EachStep` of a decidable condition, evaluated. -/
def checkSteps (c : σ → ε → Bool) : σ → List ε → Bool
  | _, [] => true
  | s, e :: es => c s e && checkSteps c (step s e) es

theorem checkSteps_iff (C : σ → ε → Prop) [∀ s e, Decidable (C s e)] (s : σ) (es : List ε) :
    checkSteps step (fun s e => decide (C s e)) s es = true ↔ EachStep step C s es := by
  induction es generalizing s with
  | nil => simp [checkSteps, EachStep]
  | cons e es ih => simp [checkSteps, EachStep, ih]

variable {step} {P : σ → Prop} {C : σ → ε → Prop} {s : σ} {es : List ε}

theorem eachStep_append (es fs : List ε) :
    EachStep step C s (es ++ fs) ↔ EachStep step C s es ∧ EachStep step C (es.foldl step s) fs := by
  induction es generalizing s with
  | nil => simp [EachStep]
  | cons e es ih =>
      rw [List.cons_append, EachStep, EachStep, List.foldl_cons, ih, and_assoc]

theorem Throughout.last (h : Throughout step P s es) : P (es.foldl step s) := by
  induction es generalizing s with
  | nil => exact h
  | cons e es ih => exact ih h.2

/-- The step lemma in both directions gives the run lemma in both directions. -/
theorem throughout_iff (hs : P s)
    (hstep : ∀ s e, e ∈ es → P s → (P (step s e) ↔ C s e)) :
    Throughout step P s es ↔ EachStep step C s es := by
  induction es generalizing s with
  | nil => exact iff_of_true hs trivial
  | cons e es ih =>
      have hhead := hstep s e List.mem_cons_self hs
      have htail : ∀ s e, e ∈ es → P s → (P (step s e) ↔ C s e) :=
        fun s e he => hstep s e (List.mem_cons_of_mem _ he)
      constructor
      · rintro ⟨-, h⟩
        have hnext : P (step s e) := by
          cases es with
          | nil => exact h
          | cons => exact h.1
        exact ⟨hhead.mp hnext, (ih hnext htail).mp h⟩
      · rintro ⟨hc, h⟩
        have hnext := hhead.mpr hc
        exact ⟨hs, (ih hnext htail).mpr h⟩

/-- Two conditions that agree in every state an invariant allows agree along a run. -/
theorem eachStep_congr {I : σ → Prop} {V D : σ → ε → Prop} (hs : I s)
    (hrun : EachStep step V s es) (hI : ∀ s e, I s → V s e → I (step s e))
    (h : ∀ s e, I s → V s e → (C s e ↔ D s e)) :
    EachStep step C s es ↔ EachStep step D s es := by
  induction es generalizing s with
  | nil => exact Iff.rfl
  | cons e es ih =>
      have hhead := h s e hs hrun.1
      have htail := ih (hI s e hs hrun.1) hrun.2
      exact and_congr hhead htail

end Run
