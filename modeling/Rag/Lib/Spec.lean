import Rag.Lib.Prog

/-!
Assume/guarantee specifications of programs, handlers that implement one set of
operations by programs over another, and bounded iteration.

`Spec A G p Q` is stated on the tree itself, so it also speaks about runs that are
still going on: every operation asked so far meets `G` as long as every answer so far
met `A`. That is the form an interleaved run needs.
-/

namespace Interaction

variable {Op Op' : Type} {Resp : Op → Type} {Resp' : Op' → Type} {α β σ ρ : Type}

namespace Prog

/-- As long as the answers meet `A`, every operation asked meets `G`, and a value
that is returned meets `Q`. -/
def Spec (A : (o : Op) → Resp o → Prop) (G : Op → Prop) :
    Prog Op Resp α → (α → Prop) → Prop
  | .ret a, Q => Q a
  | .call o k, Q => G o ∧ ∀ r, A o r → Spec A G (k r) Q

variable {A : (o : Op) → Resp o → Prop} {G : Op → Prop}

@[simp] theorem spec_ret (a : α) (Q : α → Prop) :
    Spec A G (.ret a : Prog Op Resp α) Q ↔ Q a := Iff.rfl

@[simp] theorem spec_call (o : Op) (k : Resp o → Prog Op Resp α) (Q : α → Prop) :
    Spec A G (.call o k) Q ↔ G o ∧ ∀ r, A o r → Spec A G (k r) Q := Iff.rfl

@[simp] theorem spec_perform (o : Op) (Q : Resp o → Prop) :
    Spec A G (perform o : Prog Op Resp (Resp o)) Q ↔ G o ∧ ∀ r, A o r → Q r := Iff.rfl

@[simp] theorem spec_bind (p : Prog Op Resp α) (f : α → Prog Op Resp β) (Q : β → Prop) :
    Spec A G (p >>= f) Q ↔ Spec A G p fun a => Spec A G (f a) Q := by
  induction p with
  | ret a => rfl
  | call o k ih =>
      simp only [call_bind, spec_call]
      exact and_congr_right fun _ => forall_congr' fun r => imp_congr_right fun _ => ih r

@[simp] theorem spec_map (p : Prog Op Resp α) (f : α → β) (Q : β → Prop) :
    Spec A G (p.map f) Q ↔ Spec A G p fun a => Q (f a) := by
  simp [Prog.map]

theorem Spec.mono {p : Prog Op Resp α} {Q Q' : α → Prop} (h : Spec A G p Q)
    (hQ : ∀ a, Q a → Q' a) : Spec A G p Q' := by
  induction p with
  | ret a => exact hQ a h
  | call o k ih => exact ⟨h.1, fun r hr => ih r (h.2 r hr)⟩

/-- Two postconditions under one guarantee, the other proof's guarantee forgotten. -/
theorem Spec.and {G' : Op → Prop} {p : Prog Op Resp α} {Q Q' : α → Prop} (h : Spec A G p Q)
    (h' : Spec A G' p Q') : Spec A G p fun a => Q a ∧ Q' a := by
  induction p with
  | ret a => exact ⟨h, h'⟩
  | call o k ih => exact ⟨h.1, fun r hr => ih r (h.2 r hr) (h'.2 r hr)⟩

/-- Fewer promises about the answers and more demanded of the operations. -/
theorem Spec.strengthen {A' : (o : Op) → Resp o → Prop} {G' : Op → Prop}
    {p : Prog Op Resp α} {Q : α → Prop} (h : Spec A G p Q)
    (hA : ∀ o r, G o → A' o r → A o r) (hG : ∀ o, G o → G' o) : Spec A' G' p Q := by
  induction p with
  | ret a => exact h
  | call o k ih => exact ⟨hG o h.1, fun r hr => ih r (h.2 r (hA o r h.1 hr))⟩

/-- A specification follows a run: what was asked met the guarantee, and what is
left of the program still meets the specification. -/
theorem Spec.steps {p q : Prog Op Resp α} {t : List (Event Op Resp)} {Q : α → Prop}
    (h : Spec A G p Q) (hs : Steps p t q) (hA : ∀ e ∈ t, A e.op e.resp) :
    (∀ e ∈ t, G e.op) ∧ Spec A G q Q := by
  induction hs with
  | refl _ => exact ⟨by simp, h⟩
  | step r _ ih =>
      have hhead := hA _ List.mem_cons_self
      obtain ⟨hG, hq⟩ := ih (h.2 r hhead) fun e he => hA e (List.mem_cons_of_mem _ he)
      refine ⟨?_, hq⟩
      intro e he
      rcases List.mem_cons.mp he with rfl | he
      · exact h.1
      · exact hG e he

theorem Spec.runs {p : Prog Op Resp α} {t : List (Event Op Resp)} {a : α} {Q : α → Prop}
    (h : Spec A G p Q) (hr : Runs p t a) (hA : ∀ e ∈ t, A e.op e.resp) :
    (∀ e ∈ t, G e.op) ∧ Q a :=
  h.steps hr hA

/-- What every complete run of a program returns, as a specification of it. -/
theorem Spec.of_runs {p : Prog Op Resp α} {Q : α → Prop}
    (h : ∀ t a, Runs p t a → (∀ e ∈ t, A e.op e.resp) → Q a) :
    Spec A (fun _ => True) p Q := by
  induction p with
  | ret a => exact h [] a (.refl _) (by simp)
  | call o k ih =>
      refine ⟨trivial, ?_⟩
      intro r hr
      apply ih r
      intro t a hrun hA
      refine h (⟨o, r⟩ :: t) a (.step r hrun) ?_
      intro e he
      rcases List.mem_cons.mp he with rfl | he
      · exact hr
      · exact hA e he

theorem exists_run {p : Prog Op Resp α} (hA : ∀ o, ∃ r, A o r) :
    ∃ t a, Runs p t a ∧ ∀ e ∈ t, A e.op e.resp := by
  induction p with
  | ret a => exact ⟨[], a, .refl _, by simp⟩
  | call o k ih =>
      obtain ⟨r, hr⟩ := hA o
      obtain ⟨t, a, hrun, ht⟩ := ih r
      refine ⟨⟨o, r⟩ :: t, a, .step r hrun, ?_⟩
      intro e he
      rcases List.mem_cons.mp he with rfl | he
      · exact hr
      · exact ht e he

/-- Where every operation has an answer, what holds of every complete run is a
specification of the program: a run that is still going on could be completed. -/
theorem Spec.of_complete {p : Prog Op Resp α} {Q : α → Prop} (hA : ∀ o, ∃ r, A o r)
    (h : ∀ t a, Runs p t a → (∀ e ∈ t, A e.op e.resp) → (∀ e ∈ t, G e.op) ∧ Q a) :
    Spec A G p Q := by
  induction p with
  | ret a => exact (h [] a (.refl _) (by simp)).2
  | call o k ih =>
      have hnext : ∀ r t a, A o r → Runs (k r) t a → (∀ e ∈ t, A e.op e.resp) →
          G o ∧ (∀ e ∈ t, G e.op) ∧ Q a := by
        intro r t a hr hrun ht
        obtain ⟨hasked, ha⟩ := h (⟨o, r⟩ :: t) a (.step r hrun) (by
          intro e he
          rcases List.mem_cons.mp he with rfl | he
          · exact hr
          · exact ht e he)
        exact ⟨hasked _ List.mem_cons_self, fun e he => hasked e (List.mem_cons_of_mem _ he), ha⟩
      constructor
      · obtain ⟨r, hr⟩ := hA o
        obtain ⟨t, a, hrun, ht⟩ := exists_run (p := k r) hA
        exact (hnext r t a hr hrun ht).1
      · intro r hr
        apply ih r
        intro t a hrun ht
        exact (hnext r t a hr hrun ht).2

/-- Every operation of every run meets `G`, whatever the answers are. Proofs go through
the rules below, so the definition is kept folded. -/
@[irreducible] def Asks (G : Op → Prop) (p : Prog Op Resp α) : Prop :=
  Spec (fun _ _ => True) G p fun _ => True

theorem asks_iff (p : Prog Op Resp α) :
    Asks G p ↔ Spec (fun _ _ => True) G p fun _ => True := by
  rw [Asks]

theorem asks_pure (a : α) : Asks G (pure a : Prog Op Resp α) := by
  rw [asks_iff]
  trivial

theorem asks_call (o : Op) (k : Resp o → Prog Op Resp α) :
    Asks G (.call o k) ↔ G o ∧ ∀ r, Asks G (k r) := by
  simp [asks_iff]

theorem asks_perform_bind (o : Op) (f : Resp o → Prog Op Resp β) :
    Asks G (perform o >>= f) ↔ G o ∧ ∀ r, Asks G (f r) :=
  asks_call o f

theorem Asks.bind {p : Prog Op Resp α} {f : α → Prog Op Resp β} (hp : Asks G p)
    (hf : ∀ a, Asks G (f a)) : Asks G (p >>= f) := by
  simp only [asks_iff, spec_bind] at *
  exact Spec.mono hp fun a _ => hf a

theorem Asks.steps {p q : Prog Op Resp α} {t : List (Event Op Resp)} (h : Asks G p)
    (hs : Steps p t q) : ∀ e ∈ t, G e.op :=
  (Spec.steps ((asks_iff p).mp h) hs fun _ _ => trivial).1

theorem Asks.mono {G' : Op → Prop} {p : Prog Op Resp α} (h : Asks G p)
    (hG : ∀ o, G o → G' o) : Asks G' p := by
  rw [asks_iff] at *
  exact Spec.strengthen h (fun _ _ _ _ => trivial) hG

/-- Implement every operation of a program by a program over other operations. -/
def interp (f : (o : Op) → Prog Op' Resp' (Resp o)) : Prog Op Resp α → Prog Op' Resp' α
  | .ret a => .ret a
  | .call o k => f o >>= fun r => interp f (k r)

@[simp] theorem interp_ret (f : (o : Op) → Prog Op' Resp' (Resp o)) (a : α) :
    interp f (.ret a) = .ret a := rfl

@[simp] theorem interp_call (f : (o : Op) → Prog Op' Resp' (Resp o)) (o : Op)
    (k : Resp o → Prog Op Resp α) :
    interp f (.call o k) = f o >>= fun r => interp f (k r) := rfl

/-- A handler whose programs give the answers `A` promises carries a specification of
the program down to the operations the handler uses. -/
theorem Spec.interp {A' : (o : Op') → Resp' o → Prop} {G' : Op' → Prop}
    {f : (o : Op) → Prog Op' Resp' (Resp o)} {p : Prog Op Resp α} {Q : α → Prop}
    (h : Spec A G p Q) (hf : ∀ o, G o → Spec A' G' (f o) (A o)) :
    Spec A' G' (interp f p) Q := by
  induction p with
  | ret a => exact h
  | call o k ih =>
      rw [interp_call, spec_bind]
      exact (hf o h.1).mono fun r hr => ih r (h.2 r hr)

/-- `t` is what handling the operations of `u` one after the other leaves behind. -/
inductive Handled (f : (o : Op) → Prog Op' Resp' (Resp o)) :
    List (Event Op Resp) → List (Event Op' Resp') → Prop
  | nil : Handled f [] []
  | cons {e : Event Op Resp} {u : List (Event Op Resp)} {part t : List (Event Op' Resp')}
      (h : Runs (f e.op) part e.resp) (hrest : Handled f u t) :
      Handled f (e :: u) (part ++ t)

/-- A run of the interpreted program is a run of the program with every operation
handled. -/
theorem runs_interp {f : (o : Op) → Prog Op' Resp' (Resp o)} {p : Prog Op Resp α}
    {t : List (Event Op' Resp')} {a : α} (h : Runs (interp f p) t a) :
    ∃ u, Runs p u a ∧ Handled f u t := by
  induction p generalizing t with
  | ret b =>
      obtain ⟨rfl, rfl⟩ := (runs_ret_iff _ _ _).mp h
      exact ⟨[], .refl _, .nil⟩
  | call o k ih =>
      rw [interp_call] at h
      obtain ⟨part, r, rest, hpart, hrest, rfl⟩ := (runs_bind_iff _ _ _ _).mp h
      obtain ⟨u, hu, hhandled⟩ := ih r hrest
      exact ⟨⟨o, r⟩ :: u, .step r hu, .cons (e := ⟨o, r⟩) hpart hhandled⟩

section Handled

variable {f : (o : Op) → Prog Op' Resp' (Resp o)} {u : List (Event Op Resp)}
  {t : List (Event Op' Resp')}

theorem Handled.part_of (h : Handled f u t) {e : Event Op Resp} (he : e ∈ u) :
    ∃ part, part ⊆ t ∧ Runs (f e.op) part e.resp := by
  induction h with
  | nil => cases he
  | cons hpart _ ih =>
      rcases List.mem_cons.mp he with rfl | he
      · exact ⟨_, List.subset_append_left _ _, hpart⟩
      · obtain ⟨part, hsub, hr⟩ := ih he
        exact ⟨part, List.subset_append_of_subset_right _ hsub, hr⟩

theorem Handled.source_of (h : Handled f u t) {e' : Event Op' Resp'} (he : e' ∈ t) :
    ∃ e ∈ u, ∃ part, part ⊆ t ∧ Runs (f e.op) part e.resp ∧ e' ∈ part := by
  induction h with
  | nil => cases he
  | cons hpart _ ih =>
      rcases List.mem_append.mp he with he | he
      · exact ⟨_, List.mem_cons_self, _, List.subset_append_left _ _, hpart, he⟩
      · obtain ⟨e, hmem, part, hsub, hr, hin⟩ := ih he
        exact ⟨e, List.mem_cons_of_mem _ hmem, part,
          List.subset_append_of_subset_right _ hsub, hr, hin⟩

end Handled

section Fallible

variable {F : Type}

/-- Ask an operation that cannot fail. -/
def total (o : Op) : ExceptT F (Prog Op Resp) (Resp o) := ExceptT.lift (perform o)

/-- Run a program that can fail and hand its failure over as a value. -/
def attempt (p : ExceptT F (Prog Op Resp) α) : ExceptT F (Prog Op Resp) (Except F α) :=
  ExceptT.lift p.run

/-- `Spec` for a program that returns a value in `Q` or fails with an error in `E`. -/
def SpecE (A : (o : Op) → Resp o → Prop) (G : Op → Prop) (p : ExceptT F (Prog Op Resp) α)
    (Q : α → Prop) (E : F → Prop) : Prop :=
  Spec A G p.run fun r => match r with
    | .ok a => Q a
    | .error e => E e

variable {E : F → Prop}

@[simp] theorem specE_pure (a : α) (Q : α → Prop) :
    SpecE A G (pure a : ExceptT F (Prog Op Resp) α) Q E ↔ Q a := Iff.rfl

@[simp] theorem specE_throw (e : F) (Q : α → Prop) :
    SpecE A G (throw e : ExceptT F (Prog Op Resp) α) Q E ↔ E e := Iff.rfl

@[simp] theorem specE_lift (x : Except F α) (Q : α → Prop) :
    SpecE A G (liftM x : ExceptT F (Prog Op Resp) α) Q E ↔ match x with
      | .ok a => Q a
      | .error e => E e := Iff.rfl

@[simp] theorem specE_mk (p : Prog Op Resp (Except F α)) (Q : α → Prop) :
    SpecE A G (ExceptT.mk p) Q E ↔ Spec A G p fun r => match r with
      | .ok a => Q a
      | .error e => E e := Iff.rfl

@[simp] theorem specE_total (o : Op) (Q : Resp o → Prop) :
    SpecE A G (total o : ExceptT F (Prog Op Resp) (Resp o)) Q E
      ↔ G o ∧ ∀ r, A o r → Q r := Iff.rfl

@[simp] theorem specE_bind (p : ExceptT F (Prog Op Resp) α)
    (f : α → ExceptT F (Prog Op Resp) β) (Q : β → Prop) :
    SpecE A G (p >>= f) Q E ↔ SpecE A G p (fun a => SpecE A G (f a) Q E) E := by
  rw [SpecE, ExceptT.run_bind, spec_bind, SpecE]
  refine iff_of_eq (congrArg _ (funext fun r => ?_))
  cases r <;> rfl

@[simp] theorem specE_attempt (p : ExceptT F (Prog Op Resp) α) (Q : Except F α → Prop) :
    SpecE A G (attempt p) Q E ↔ SpecE A G p (fun a => Q (.ok a)) fun e => Q (.error e) := by
  rw [SpecE, SpecE, attempt, ExceptT.run_lift, ← bind_pure_comp, spec_bind]
  refine iff_of_eq (congrArg _ (funext fun r => ?_))
  cases r <;> rfl

theorem SpecE.mono {p : ExceptT F (Prog Op Resp) α} {Q Q' : α → Prop} {E' : F → Prop}
    (h : SpecE A G p Q E) (hQ : ∀ a, Q a → Q' a) (hE : ∀ e, E e → E' e) :
    SpecE A G p Q' E' := by
  refine Spec.mono h ?_
  rintro (e | a) hr
  · exact hE e hr
  · exact hQ a hr

/-- A run of a program that can fail goes on behind the first part or ends with its
failure. -/
theorem runsE_bind_iff (p : ExceptT F (Prog Op Resp) α) (f : α → ExceptT F (Prog Op Resp) β)
    (t : List (Event Op Resp)) (r : Except F β) :
    Runs (p >>= f).run t r ↔ ∃ t₁ x t₂, t = t₁ ++ t₂ ∧ Runs p.run t₁ x ∧
      match x with
      | .ok a => Runs (f a).run t₂ r
      | .error e => t₂ = [] ∧ r = .error e := by
  rw [ExceptT.run_bind, runs_bind_iff]
  constructor
  · rintro ⟨t₁, x, t₂, h₁, h₂, rfl⟩
    refine ⟨t₁, x, t₂, rfl, h₁, ?_⟩
    cases x with
    | ok a => exact h₂
    | error e =>
        obtain ⟨rfl, rfl⟩ := (runs_ret_iff _ _ _).mp h₂
        exact ⟨rfl, rfl⟩
  · rintro ⟨t₁, x, t₂, rfl, h₁, h₂⟩
    refine ⟨t₁, x, t₂, h₁, ?_, rfl⟩
    cases x with
    | ok a => exact h₂
    | error e =>
        obtain ⟨rfl, rfl⟩ := h₂
        exact .refl _

/-- A run that returns has returned from its first part. -/
theorem runsE_bind_ok_iff (p : ExceptT F (Prog Op Resp) α) (f : α → ExceptT F (Prog Op Resp) β)
    (t : List (Event Op Resp)) (b : β) :
    Runs (p >>= f).run t (.ok b) ↔ ∃ t₁ a t₂, t = t₁ ++ t₂ ∧ Runs p.run t₁ (.ok a)
      ∧ Runs (f a).run t₂ (.ok b) := by
  rw [runsE_bind_iff]
  constructor
  · rintro ⟨t₁, x, t₂, rfl, h₁, h₂⟩
    cases x with
    | ok a => exact ⟨t₁, a, t₂, rfl, h₁, h₂⟩
    | error e => cases h₂.2
  · rintro ⟨t₁, a, t₂, rfl, h₁, h₂⟩
    exact ⟨t₁, .ok a, t₂, rfl, h₁, h₂⟩

theorem runsE_total_bind_iff (o : Op) (f : Resp o → ExceptT F (Prog Op Resp) β)
    (t : List (Event Op Resp)) (r : Except F β) :
    Runs (total o >>= f).run t r ↔ ∃ x u, t = ⟨o, x⟩ :: u ∧ Runs (f x).run u r :=
  runs_call_iff _ _ _ _

theorem runsE_lift_iff (x : Except F α) (t : List (Event Op Resp)) (r : Except F α) :
    Runs (liftM x : ExceptT F (Prog Op Resp) α).run t r ↔ t = [] ∧ x = r :=
  runs_ret_iff x r t

theorem runsE_pure_iff (a : α) (t : List (Event Op Resp)) (r : Except F α) :
    Runs (pure a : ExceptT F (Prog Op Resp) α).run t r ↔ t = [] ∧ r = .ok a := by
  rw [ExceptT.run_pure, pure_eq, runs_ret_iff]
  exact and_congr_right fun _ => eq_comm

end Fallible

/-- Run `body` until it exits with `inr`, for at most `n` rounds; `none` says that the
bound was reached first. -/
def iterate (body : σ → Prog Op Resp (σ ⊕ ρ)) : Nat → σ → Prog Op Resp (Option ρ)
  | 0, _ => .ret none
  | n + 1, s => body s >>= fun
      | .inl s' => iterate body n s'
      | .inr r => .ret (some r)

theorem Spec.iterate {body : σ → Prog Op Resp (σ ⊕ ρ)} {I : σ → Prop} {Q : ρ → Prop}
    (hbody : ∀ s, I s → Spec A G (body s) (Sum.elim I Q)) (n : Nat) (s : σ) (hs : I s) :
    Spec A G (iterate body n s) fun r => ∀ x, r = some x → Q x := by
  induction n generalizing s with
  | zero => simp [Prog.iterate]
  | succ n ih =>
      rw [Prog.iterate, spec_bind]
      refine (hbody s hs).mono ?_
      rintro (s' | r) h
      · exact ih s' h
      · simpa using h

section Runs

variable {body : σ → Prog Op Resp (σ ⊕ ρ)}

theorem iterate_exit {n : Nat} {s : σ} {t : List (Event Op Resp)} {r : ρ}
    (h : Runs (body s) t (.inr r)) : Runs (iterate body (n + 1) s) t (some r) :=
  (runs_bind_iff _ _ _ _).mpr ⟨t, .inr r, [], h, .refl _, by simp⟩

theorem iterate_next {n : Nat} {s s' : σ} {t u : List (Event Op Resp)} {r : Option ρ}
    (h : Runs (body s) t (.inl s')) (hrest : Runs (iterate body n s') u r) :
    Runs (iterate body (n + 1) s) (t ++ u) r :=
  (runs_bind_iff _ _ _ _).mpr ⟨t, .inl s', u, h, hrest, rfl⟩

/-- An invariant over the trace so far and the state is carried to the round in which
the iteration exits. -/
theorem runs_iterate {I : List (Event Op Resp) → σ → Prop}
    (hbody : ∀ h s t s', I h s → Runs (body s) t (.inl s') → I (h ++ t) s')
    {n : Nat} {s : σ} {h t : List (Event Op Resp)} {r : ρ}
    (hI : I h s) (hr : Runs (iterate body n s) t (some r)) :
    ∃ t₁ s' t₂, t = t₁ ++ t₂ ∧ I (h ++ t₁) s' ∧ Runs (body s') t₂ (.inr r) := by
  induction n generalizing s h t with
  | zero => simp [Prog.iterate] at hr
  | succ n ih =>
      obtain ⟨u, x, v, hu, hv, rfl⟩ := (runs_bind_iff _ _ _ _).mp hr
      cases x with
      | inl s' =>
          obtain ⟨v₁, s'', v₂, rfl, hI', hx⟩ := ih (hbody h s u s' hI hu) hv
          exact ⟨u ++ v₁, s'', v₂, by simp, by simpa using hI', hx⟩
      | inr x =>
          obtain ⟨rfl, hx⟩ := (runs_ret_iff _ _ _).mp hv
          cases hx
          exact ⟨[], s, u, by simp, by simpa using hI, hu⟩

/-- A measure that every further round decreases bounds the rounds: with more than
`μ s` of them the iteration exits. -/
theorem iterate_exits {I : σ → Prop} {μ : σ → Nat}
    (hbody : ∀ s t s', I s → Runs (body s) t (.inl s') → I s' ∧ μ s' < μ s)
    {n : Nat} {s : σ} {t : List (Event Op Resp)} {r : Option ρ} (hI : I s) (hn : μ s < n)
    (hr : Runs (iterate body n s) t r) : r.isSome := by
  induction n generalizing s t with
  | zero => omega
  | succ n ih =>
      obtain ⟨u, x, v, hu, hv, rfl⟩ := (runs_bind_iff _ _ _ _).mp hr
      cases x with
      | inl s' =>
          obtain ⟨hI', hlt⟩ := hbody s u s' hI hu
          exact ih hI' (by omega) hv
      | inr x =>
          obtain ⟨-, rfl⟩ := (runs_ret_iff _ _ _).mp hv
          rfl

end Runs

end Prog

/-- Every event of `t` stands in the relation `E` to what happened before it, where
`h` happened before `t`. -/
def Everywhere (E : List (Event Op Resp) → Event Op Resp → Prop) :
    List (Event Op Resp) → List (Event Op Resp) → Prop
  | _, [] => True
  | h, e :: t => E h e ∧ Everywhere E (h ++ [e]) t

variable {E : List (Event Op Resp) → Event Op Resp → Prop}

@[simp] theorem everywhere_nil (h : List (Event Op Resp)) : Everywhere E h [] := trivial

@[simp] theorem everywhere_cons (h t : List (Event Op Resp)) (e : Event Op Resp) :
    Everywhere E h (e :: t) ↔ E h e ∧ Everywhere E (h ++ [e]) t := Iff.rfl

theorem everywhere_append (h t u : List (Event Op Resp)) :
    Everywhere E h (t ++ u) ↔ Everywhere E h t ∧ Everywhere E (h ++ t) u := by
  induction t generalizing h with
  | nil => simp
  | cons e t ih => simp [ih, and_assoc]

theorem everywhere_iff (h t : List (Event Op Resp)) :
    Everywhere E h t ↔ ∀ pre e post, t = pre ++ e :: post → E (h ++ pre) e := by
  constructor
  · rintro ht pre e post rfl
    rw [everywhere_append, everywhere_cons] at ht
    exact ht.2.1
  · intro ht
    induction t generalizing h with
    | nil => trivial
    | cons e t ih =>
        refine ⟨by simpa using ht [] e t rfl, ih _ fun pre e' post he => ?_⟩
        simpa using ht (e :: pre) e' post (by simp [he])

/-- A position property of every round of an iteration holds of the whole run. -/
theorem Prog.everywhere_iterate {body : σ → Prog Op Resp (σ ⊕ ρ)}
    {I : List (Event Op Resp) → σ → Prop}
    (hbody : ∀ h s t x, I h s → Runs (body s) t x →
      Everywhere E h t ∧ ∀ s', x = .inl s' → I (h ++ t) s')
    {n : Nat} {s : σ} {h t : List (Event Op Resp)} {r : Option ρ}
    (hI : I h s) (hr : Runs (iterate body n s) t r) : Everywhere E h t := by
  induction n generalizing s h t with
  | zero =>
      obtain ⟨rfl, -⟩ := (runs_ret_iff _ _ _).mp hr
      trivial
  | succ n ih =>
      obtain ⟨u, x, v, hu, hv, rfl⟩ := (runs_bind_iff _ _ _ _).mp hr
      obtain ⟨hEu, hnext⟩ := hbody h s u x hI hu
      rw [everywhere_append]
      refine ⟨hEu, ?_⟩
      cases x with
      | inl s' => exact ih (hnext s' rfl) hv
      | inr x =>
          obtain ⟨rfl, -⟩ := (runs_ret_iff _ _ _).mp hv
          trivial

end Interaction
