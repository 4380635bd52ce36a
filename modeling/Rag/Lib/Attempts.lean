import Rag.Lib.Lockstep

/-!
Working through a plan of operations until an answer is accepted.

`firstAccepted` asks the operations of the plan in order. A run that accepts ends there, so it has
asked a beginning of the plan; a run that does not has asked all of it. What was refused is summed
up in a state.
-/

namespace Interaction

namespace Prog

variable {Op : Type} {Resp : Op → Type} {α α' σ σ' : Type}

/-- Ask the operations of the plan in order. The first event that `accept` takes ends the run,
every other one is noted. -/
def firstAccepted (accept : Event Op Resp → Option α) (note : σ → Event Op Resp → σ) :
    List Op → σ → Prog Op Resp (α ⊕ σ)
  | [], s => .ret (.inr s)
  | o :: rest, s => .call o fun r =>
      match accept ⟨o, r⟩ with
      | some a => .ret (.inl a)
      | none => firstAccepted accept note rest (note s ⟨o, r⟩)

section Runs

variable {accept : Event Op Resp → Option α} {note : σ → Event Op Resp → σ}

theorem firstAccepted_append (p q : List Op) (s : σ) :
    firstAccepted accept note (p ++ q) s = firstAccepted accept note p s >>= fun x =>
      match x with
      | .inl a => .ret (.inl a)
      | .inr s => firstAccepted accept note q s := by
  induction p generalizing s with
  | nil => rfl
  | cons o rest ih =>
      rw [List.cons_append, firstAccepted, firstAccepted, call_bind]
      congr 1
      funext r
      cases accept ⟨o, r⟩ with
      | some a => rfl
      | none => exact ih _

/-- A run without a value has asked the whole plan. -/
theorem runs_exhausted_iff (plan : List Op) (s s' : σ) (t : List (Event Op Resp)) :
    Runs (firstAccepted accept note plan s) t (.inr s')
      ↔ t.map Event.op = plan ∧ (∀ e ∈ t, accept e = none) ∧ s' = t.foldl note s := by
  induction plan generalizing s t with
  | nil =>
      rw [firstAccepted, runs_ret_iff, List.map_eq_nil_iff]
      constructor
      · rintro ⟨rfl, hs⟩
        exact ⟨rfl, by simp, (Sum.inr.inj hs).symm⟩
      · rintro ⟨rfl, -, rfl⟩
        exact ⟨rfl, rfl⟩
  | cons o rest ih =>
      rw [firstAccepted, runs_call_iff]
      constructor
      · rintro ⟨r, u, rfl, hrun⟩
        cases haccept : accept ⟨o, r⟩ with
        | some a =>
            rw [haccept] at hrun
            cases ((runs_ret_iff _ _ _).mp hrun).2
        | none =>
            rw [haccept] at hrun
            obtain ⟨hops, hrefused, hstate⟩ := (ih _ _).mp hrun
            refine ⟨congrArg (o :: ·) hops, ?_, hstate⟩
            intro e he
            rcases List.mem_cons.mp he with rfl | he
            · exact haccept
            · exact hrefused e he
      · rintro ⟨hops, hrefused, rfl⟩
        cases t with
        | nil => cases hops
        | cons e u =>
            obtain ⟨rfl, hrest⟩ := List.cons.inj hops
            refine ⟨e.resp, u, rfl, ?_⟩
            rw [hrefused _ List.mem_cons_self]
            exact (ih _ _).mpr ⟨hrest, fun e he => hrefused e (List.mem_cons_of_mem _ he), rfl⟩

/-- A run with a value has asked a beginning of the plan and ends in the event it is taken from. -/
theorem runs_accepted_iff (plan : List Op) (s : σ) (t : List (Event Op Resp)) (a : α) :
    Runs (firstAccepted accept note plan s) t (.inl a)
      ↔ ∃ before e, t = before ++ [e] ∧ t.map Event.op <+: plan
        ∧ (∀ e ∈ before, accept e = none) ∧ accept e = some a := by
  induction plan generalizing s t with
  | nil =>
      rw [firstAccepted, runs_ret_iff]
      constructor
      · rintro ⟨-, h⟩
        cases h
      · rintro ⟨before, e, rfl, hops, -⟩
        simp at hops
  | cons o rest ih =>
      rw [firstAccepted, runs_call_iff]
      constructor
      · rintro ⟨r, u, rfl, hrun⟩
        cases haccept : accept ⟨o, r⟩ with
        | some b =>
            rw [haccept] at hrun
            obtain ⟨rfl, hb⟩ := (runs_ret_iff _ _ _).mp hrun
            refine ⟨[], ⟨o, r⟩, rfl, ?_, by simp, ?_⟩
            · exact ⟨rest, rfl⟩
            · rw [haccept, Sum.inl.inj hb]
        | none =>
            rw [haccept] at hrun
            obtain ⟨before, e, rfl, hops, hrefused, he⟩ := (ih _ _).mp hrun
            refine ⟨⟨o, r⟩ :: before, e, rfl, List.cons_prefix_cons.mpr ⟨rfl, hops⟩, ?_, he⟩
            intro e' he'
            rcases List.mem_cons.mp he' with rfl | he'
            · exact haccept
            · exact hrefused e' he'
      · rintro ⟨before, e, rfl, hops, hrefused, he⟩
        cases before with
        | nil =>
            obtain ⟨rfl, -⟩ := List.cons_prefix_cons.mp hops
            refine ⟨e.resp, [], rfl, ?_⟩
            rw [he]
            exact .refl _
        | cons e' before =>
            obtain ⟨rfl, hrest⟩ := List.cons_prefix_cons.mp hops
            refine ⟨e'.resp, before ++ [e], rfl, ?_⟩
            rw [hrefused _ List.mem_cons_self]
            exact (ih _ _).mpr ⟨before, e, rfl, hrest,
              fun e he => hrefused e (List.mem_cons_of_mem _ he), he⟩

end Runs

/-- Plans that match are worked through in lockstep when what looks alike is accepted alike. -/
theorem Lockstep.firstAccepted {T : Op → Op → Prop} {S : Event Op Resp → Event Op Resp → Prop}
    {R : α → α' → Prop} {I : σ → σ' → Prop} {accept : Event Op Resp → Option α}
    {accept' : Event Op Resp → Option α'} {note : σ → Event Op Resp → σ}
    {note' : σ' → Event Op Resp → σ'}
    (haccept : ∀ e e', S e e' → Option.Rel R (accept e) (accept' e'))
    (hnote : ∀ s s' e e', I s s' → S e e' → I (note s e) (note' s' e')) {plan plan' : List Op}
    (hplan : List.Forall₂ T plan plan') {s : σ} {s' : σ'} (hs : I s s') :
    Lockstep T S (Sum.LiftRel R I) (Prog.firstAccepted accept note plan s)
      (Prog.firstAccepted accept' note' plan' s') := by
  induction hplan generalizing s s' with
  | nil => exact .ret (.inr hs)
  | @cons o o' rest rest' ho _ ih =>
      refine .call ho ?_
      intro r r' hevent
      have hrel := haccept _ _ hevent
      generalize accept ⟨o, r⟩ = x at hrel
      generalize accept' ⟨o', r'⟩ = x' at hrel
      cases hrel with
      | some h => exact .ret (.inl h)
      | none => exact ih (hnote _ _ _ _ hs hevent)

end Prog

end Interaction
