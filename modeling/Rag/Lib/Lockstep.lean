import Rag.Lib.Gather

/-!
Two runs side by side.

`S` says which events an observer takes for the same, and `T` which operations. Two
programs are in lockstep if they ask operations in `T` for as long as their answers are
in `S`. Environments that answer such operations alike after histories that look alike
are coupled, and their runs of programs in lockstep leave traces that look alike.
-/

namespace Interaction

namespace Prog

variable {Op : Type} {Resp : Op → Type} {α α' β β' σ σ' ρ ρ' F : Type}

/-- The programs ask operations in `T` while the events are in `S`, and return values
in `R`. -/
inductive Lockstep (T : Op → Op → Prop) (S : Event Op Resp → Event Op Resp → Prop)
    (R : α → α' → Prop) : Prog Op Resp α → Prog Op Resp α' → Prop
  | ret {a : α} {a' : α'} (h : R a a') : Lockstep T S R (.ret a) (.ret a')
  | call {o o' : Op} {k : Resp o → Prog Op Resp α} {k' : Resp o' → Prog Op Resp α'} (ho : T o o')
      (hk : ∀ r r', S ⟨o, r⟩ ⟨o', r'⟩ → Lockstep T S R (k r) (k' r')) :
      Lockstep T S R (.call o k) (.call o' k')

variable {T : Op → Op → Prop} {S : Event Op Resp → Event Op Resp → Prop} {R : α → α' → Prop}

section Rules

theorem lockstep_pure {a : α} {a' : α'} (h : R a a') :
    Lockstep T S R (pure a) (pure a' : Prog Op Resp α') :=
  .ret h

theorem lockstep_perform_bind {o o' : Op} {f : Resp o → Prog Op Resp α}
    {f' : Resp o' → Prog Op Resp α'} (ho : T o o')
    (hf : ∀ r r', S ⟨o, r⟩ ⟨o', r'⟩ → Lockstep T S R (f r) (f' r')) :
    Lockstep T S R (perform o >>= f) (perform o' >>= f') :=
  .call ho hf

theorem Lockstep.bind {R' : β → β' → Prop} {p : Prog Op Resp α} {p' : Prog Op Resp α'}
    {f : α → Prog Op Resp β} {f' : α' → Prog Op Resp β'} (h : Lockstep T S R p p')
    (hf : ∀ a a', R a a' → Lockstep T S R' (f a) (f' a')) :
    Lockstep T S R' (p >>= f) (p' >>= f') := by
  induction h with
  | ret h => exact hf _ _ h
  | call ho _ ih => exact .call ho ih

theorem Lockstep.mono {R' : α → α' → Prop} {p : Prog Op Resp α} {p' : Prog Op Resp α'}
    (h : Lockstep T S R p p') (hR : ∀ a a', R a a' → R' a a') : Lockstep T S R' p p' := by
  induction h with
  | ret h => exact .ret (hR _ _ h)
  | call ho _ ih => exact .call ho ih

/-- A program is in lockstep with itself where the operations it asks are answered the
same. -/
theorem Asks.lockstep {G : Op → Prop} {p : Prog Op Resp α} (h : Asks G p)
    (hT : ∀ o, G o → T o o) (hS : ∀ o r r', G o → S ⟨o, r⟩ ⟨o, r'⟩ → r = r') :
    Lockstep T S Eq p p := by
  induction p with
  | ret a => exact .ret rfl
  | call o k ih =>
      obtain ⟨ho, hk⟩ := (asks_call o k).mp h
      refine .call (hT o ho) ?_
      intro r r' hevent
      cases hS o r r' ho hevent
      exact ih r (hk r)

/-- Related rounds make related iterations. -/
theorem Lockstep.iterate {I : σ → σ' → Prop} {Q : ρ → ρ' → Prop}
    {body : σ → Prog Op Resp (σ ⊕ ρ)} {body' : σ' → Prog Op Resp (σ' ⊕ ρ')}
    (hbody : ∀ s s', I s s' → Lockstep T S (Sum.LiftRel I Q) (body s) (body' s'))
    (n : Nat) {s : σ} {s' : σ'} (hs : I s s') :
    Lockstep T S (Option.Rel Q) (Prog.iterate body n s) (Prog.iterate body' n s') := by
  induction n generalizing s s' with
  | zero => exact .ret .none
  | succ n ih =>
      refine (hbody s s' hs).bind ?_
      intro x x' hx
      cases hx with
      | inl hnext => exact ih hnext
      | inr hexit => exact .ret (.some hexit)

end Rules

/-- The environments answer alike what looks alike. -/
def Coupled (T : Op → Op → Prop) (S : Event Op Resp → Event Op Resp → Prop)
    (env env' : Env Op Resp) : Prop :=
  ∀ h h' o o', List.Forall₂ S h h' → T o o' → S ⟨o, env h o⟩ ⟨o', env' h' o'⟩

theorem forall₂_snoc {γ γ' : Type} {Q : γ → γ' → Prop} {xs : List γ} {ys : List γ'} {x : γ}
    {y : γ'} (h : List.Forall₂ Q xs ys) (hxy : Q x y) : List.Forall₂ Q (xs ++ [x]) (ys ++ [y]) :=
  List.rel_append h (.cons hxy .nil)

theorem Lockstep.exec {env env' : Env Op Resp} (henv : Coupled T S env env')
    {p : Prog Op Resp α} {p' : Prog Op Resp α'} (h : Lockstep T S R p p')
    {before before' : List (Event Op Resp)} (hbefore : List.Forall₂ S before before') :
    List.Forall₂ S (p.exec env before).1 (p'.exec env' before').1
      ∧ R (p.exec env before).2 (p'.exec env' before').2 := by
  induction h generalizing before before' with
  | ret h => exact ⟨.nil, h⟩
  | call ho _ ih =>
      have hevent := henv before before' _ _ hbefore ho
      obtain ⟨htrace, hresult⟩ := ih _ _ hevent (forall₂_snoc hbefore hevent)
      exact ⟨.cons hevent htrace, hresult⟩

theorem Lockstep.trace {env env' : Env Op Resp} (henv : Coupled T S env env')
    {p : Prog Op Resp α} {p' : Prog Op Resp α'} (h : Lockstep T S R p p') :
    List.Forall₂ S (p.trace env) (p'.trace env') :=
  (h.exec henv .nil).1

/-- Related values, or the same failure. -/
def Same (R : α → α' → Prop) : Except F α → Except F α' → Prop
  | .ok a, .ok a' => R a a'
  | .error e, .error e' => e = e'
  | _, _ => False

section Gather

theorem Same.elim {r : Except F α} {r' : Except F α'} (h : Same R r r') :
    (∃ a a', r = .ok a ∧ r' = .ok a' ∧ R a a') ∨ ∃ e, r = .error e ∧ r' = .error e := by
  cases r with
  | error e =>
      cases r' with
      | error e' =>
          cases h
          exact Or.inr ⟨e, rfl, rfl⟩
      | ok a' => cases h
  | ok a =>
      cases r' with
      | error e' => cases h
      | ok a' => exact Or.inl ⟨a, a', rfl, rfl, h⟩

theorem childAt_forall₂ {γ γ' : Type} {Q : γ → γ' → Prop} {ps : List γ} {ps' : List γ'}
    (h : List.Forall₂ Q ps ps') (i : Nat) :
    (childAt i ps = none ∧ childAt i ps' = none)
      ∨ ∃ z z', childAt i ps = some z ∧ childAt i ps' = some z' ∧ List.Forall₂ Q z.1 z'.1
        ∧ Q z.2.1 z'.2.1 ∧ List.Forall₂ Q z.2.2 z'.2.2 := by
  induction h generalizing i with
  | nil => exact Or.inl (by cases i <;> exact ⟨rfl, rfl⟩)
  | cons hp hps ih =>
      cases i with
      | zero => exact Or.inr ⟨_, _, rfl, rfl, .nil, hp, hps⟩
      | succ i =>
          rcases ih i with ⟨hl, hr⟩ | ⟨z, z', hl, hr, hbefore, hchild, hafter⟩
          · exact Or.inl ⟨by simp [childAt, hl], by simp [childAt, hr]⟩
          · refine Or.inr ⟨(_ :: z.1, z.2), (_ :: z'.1, z'.2), ?_, ?_, .cons hp hbefore, hchild, hafter⟩
            · simp [childAt, hl]
            · simp [childAt, hr]

variable {fatal : F → Bool}

theorem Lockstep.finish {first : Option F} {ps : List (Prog Op Resp (Except F α))}
    {ps' : List (Prog Op Resp (Except F α'))}
    (h : List.Forall₂ (Lockstep T S (Same R)) ps ps') :
    Lockstep T S (Same (List.Forall₂ R)) (Prog.finish fatal first ps)
      (Prog.finish fatal first ps') := by
  induction h generalizing first with
  | nil =>
      cases first with
      | none => exact .ret .nil
      | some e => exact .ret rfl
  | @cons p p' rest rest' hp _ ih =>
      rw [Prog.finish, Prog.finish]
      refine hp.bind ?_
      intro r r' hr
      rcases hr.elim with ⟨a, a', rfl, rfl, ha⟩ | ⟨e, rfl, rfl⟩
      · have hmap : ∀ first : Option F, Lockstep T S (Same (List.Forall₂ R))
            ((Prog.finish fatal first rest).map fun s => s.map fun as => a :: as)
            ((Prog.finish fatal first rest').map fun s => s.map fun as => a' :: as) := by
          intro first
          refine ih.bind ?_
          intro s s' hs
          rcases hs.elim with ⟨as, as', rfl, rfl, has⟩ | ⟨e, rfl, rfl⟩
          · exact .ret (List.Forall₂.cons ha has)
          · exact .ret rfl
        cases first <;> exact hmap _
      · cases first with
        | none =>
            dsimp only
            split_ifs
            · exact .ret rfl
            · exact ih
        | some e' => exact ih

theorem Lockstep.follow {order : List Nat} {first : Option F}
    {ps : List (Prog Op Resp (Except F α))} {ps' : List (Prog Op Resp (Except F α'))}
    (h : List.Forall₂ (Lockstep T S (Same R)) ps ps') :
    Lockstep T S (Same (List.Forall₂ R)) (Prog.follow fatal order first ps)
      (Prog.follow fatal order first ps') := by
  induction order generalizing first ps ps' with
  | nil => exact Lockstep.finish h
  | cons i rest ih =>
      rw [Prog.follow, Prog.follow]
      rcases childAt_forall₂ h i with ⟨hl, hr⟩ | ⟨z, z', hl, hr, hbefore, hchild, hafter⟩
      · rw [hl, hr]
        exact ih h
      · obtain ⟨before, p, after⟩ := z
        obtain ⟨before', p', after'⟩ := z'
        rw [hl, hr]
        cases hchild with
        | ret _ => exact ih h
        | @call o o' k k' ho hk =>
            refine .call ho ?_
            intro r r' hevent
            have hnext := hk r r' hevent
            have hset := List.rel_append hbefore (List.Forall₂.cons hnext hafter)
            generalize k r = q at hnext hset
            generalize k' r' = q' at hnext hset
            cases hnext with
            | call _ _ => cases first <;> exact ih hset
            | ret hresult =>
                rcases hresult.elim with ⟨a, a', rfl, rfl, -⟩ | ⟨e, rfl, rfl⟩
                · cases first <;> exact ih hset
                · cases first with
                  | some e' => exact ih hset
                  | none =>
                      dsimp only
                      split_ifs
                      · exact .ret rfl
                      · exact ih hset

/-- Related children gather to related values or to the same failure. -/
theorem Lockstep.gather {schedule : Op} {order : Resp schedule → List Nat}
    {ps : List (Prog Op Resp (Except F α))} {ps' : List (Prog Op Resp (Except F α'))}
    (hschedule : T schedule schedule)
    (horder : ∀ r r', S ⟨schedule, r⟩ ⟨schedule, r'⟩ → order r = order r')
    (h : List.Forall₂ (Lockstep T S (Same R)) ps ps') :
    Lockstep T S (Same (List.Forall₂ R)) (Prog.gather fatal schedule order ps)
      (Prog.gather fatal schedule order ps') := by
  refine .call hschedule ?_
  intro r r' hevent
  rw [horder r r' hevent]
  exact Lockstep.follow h

end Gather

end Prog

end Interaction
