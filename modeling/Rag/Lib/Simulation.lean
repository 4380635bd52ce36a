import Rag.Lib.Pool

/-!
Forward simulation of a pool by an abstract state.

`abstract` says which abstract steps an operation of a program stands for. When every answer the
shared state may give is matched by such a step, an abstract run accompanies every path
(`Path.simulated`), and each operation of a program is found on it between two abstract states
(`Path.instant`).
-/

namespace Interaction.Pool

variable {Op : Type} {Resp : Op → Type} {ι σ τ α : Type}

/-- A run of abstract steps, one for each operation of a path. -/
inductive Follows (abstract : ι → Event Op Resp → τ → τ → Prop) :
    List (Transition Op Resp ι σ) → τ → τ → Prop
  | nil (a : τ) : Follows abstract [] a a
  | cons {step : Transition Op Resp ι σ} {steps : List (Transition Op Resp ι σ)} {a b c : τ}
      (hstep : abstract step.who step.event a b) (hrest : Follows abstract steps b c) :
      Follows abstract (step :: steps) a c

variable {abstract : ι → Event Op Resp → τ → τ → Prop}

theorem Follows.split {before after : List (Transition Op Resp ι σ)} {a c : τ}
    (h : Follows abstract (before ++ after) a c) :
    ∃ b, Follows abstract before a b ∧ Follows abstract after b c := by
  induction before generalizing a with
  | nil => exact ⟨a, .nil a, h⟩
  | cons step before ih =>
      cases h with
      | cons hstep hrest =>
          obtain ⟨b, hbefore, hafter⟩ := ih hrest
          exact ⟨b, .cons hstep hbefore, hafter⟩

variable [DecidableEq ι] {cell : σ → List (Event Op Resp) → (o : Op) → Resp o → σ → Prop}
  {env : σ → σ → Prop}

theorem Path.reaches {p q : Pool Op Resp ι σ α} {steps : List (Transition Op Resp ι σ)}
    (h : Path cell env p steps q) : Reaches cell env p q := by
  induction h with
  | refl p => exact .refl
  | call i r hnext hcell _ ih => exact .head (.call i r hnext hcell) ih
  | outside henv _ ih => exact .head (.outside henv) ih

/-- The abstract run beside a path. -/
theorem Path.simulated {R : σ → τ → Prop} {G : ι → Op → Prop} {Q : ι → α → Prop}
    (hcell : ∀ s t i o r s' a, R s a → G i o → cell s t o r s' →
      ∃ b, abstract i ⟨o, r⟩ a b ∧ R s' b)
    (henv : ∀ s s' a, R s a → env s s' → R s' a) {p q : Pool Op Resp ι σ α}
    {steps : List (Transition Op Resp ι σ)}
    (hprograms : ∀ i, Prog.Spec (fun _ _ => True) (G i) (p.rest i) (Q i))
    (h : Path cell env p steps q) {a : τ} (hR : R p.shared a) :
    ∃ b, Follows abstract steps a b ∧ R q.shared b := by
  induction h generalizing a with
  | refl p => exact ⟨a, .nil a, hR⟩
  | @call p q steps i o k r shared hnext hcell' hrest ih =>
      have hspec := hprograms i
      rw [hnext] at hspec
      obtain ⟨b, hstep, hR'⟩ := hcell _ _ i _ _ _ _ hR hspec.1 hcell'
      have hlater : ∀ j, Prog.Spec (fun _ _ => True) (G j)
          ((p.advance i shared ⟨o, r⟩ (k r)).rest j) (Q j) := by
        intro j
        by_cases hj : j = i
        · subst hj
          simpa [advance] using hspec.2 r trivial
        · simpa [advance, hj] using hprograms j
      obtain ⟨c, hfollows, hR''⟩ := ih hlater hR'
      exact ⟨c, .cons hstep hfollows, hR''⟩
  | outside henv' _ ih => exact ih hprograms (henv _ _ _ hR henv')

/-- A path is a run of every program. -/
theorem Path.steps {shared : σ} {programs : ι → Prog Op Resp α} {q : Pool Op Resp ι σ α}
    {steps : List (Transition Op Resp ι σ)} (h : Path cell env (start shared programs) steps q)
    (i : ι) : Prog.Steps (programs i) (q.done i) (q.rest i) :=
  reaches_steps h.reaches i

/-- What a program has done are its operations on the path. -/
theorem Path.mem_done {p q : Pool Op Resp ι σ α} {steps : List (Transition Op Resp ι σ)}
    (h : Path cell env p steps q) {i : ι} {e : Event Op Resp} (he : e ∈ q.done i) :
    e ∈ p.done i ∨ ∃ step ∈ steps, step.who = i ∧ step.event = e := by
  induction h with
  | refl p => exact Or.inl he
  | @call p q steps j o k r shared hnext hcell' hrest ih =>
      rcases ih he with hfound | ⟨step, hstep, hwho, hevent⟩
      · by_cases hj : i = j
        · subst hj
          have hsplit : e ∈ p.done i ∨ e = ⟨o, r⟩ := by
            simpa [advance] using hfound
          rcases hsplit with hbefore | rfl
          · exact Or.inl hbefore
          · exact Or.inr ⟨_, List.mem_cons_self, rfl, rfl⟩
        · left
          simpa [advance, hj] using hfound
      · exact Or.inr ⟨step, List.mem_cons_of_mem _ hstep, hwho, hevent⟩
  | outside _ _ ih => exact ih he

/-- An operation of a program happens at one instant of the abstract run. -/
theorem Path.instant {p q : Pool Op Resp ι σ α} {steps : List (Transition Op Resp ι σ)}
    (h : Path cell env p steps q) {a c : τ} (hfollows : Follows abstract steps a c) {i : ι}
    {e : Event Op Resp} (hfresh : p.done i = []) (he : e ∈ q.done i) :
    ∃ before step after b b', steps = before ++ step :: after ∧ step.who = i ∧ step.event = e
      ∧ Follows abstract before a b ∧ abstract i e b b' ∧ Follows abstract after b' c := by
  rcases h.mem_done he with hfound | ⟨step, hstep, rfl, rfl⟩
  · rw [hfresh] at hfound
    cases hfound
  · obtain ⟨before, after, rfl⟩ := List.append_of_mem hstep
    obtain ⟨b, hbefore, hrest⟩ := hfollows.split
    cases hrest with
    | cons hmatched hafter =>
        exact ⟨before, step, after, b, _, rfl, rfl, rfl, hbefore, hmatched, hafter⟩

end Interaction.Pool
