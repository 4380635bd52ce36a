import Rag.Lib.Gather

/-!
Programs run to their end against a server that keeps a state of its own.

`against` threads the state of the server through a program. What a program returns is read off a
specification its server meets (`Spec.against`). Where everything a program asks has one answer,
the value it returns is the same from every state (`Asks.determined`).
-/

namespace Interaction

namespace Prog

variable {Op Op' : Type} {Resp : Op → Type} {Resp' : Op' → Type} {α β σ F : Type}

/-- The value a program returns against a server, and the state it leaves the server in. -/
def against (serve : σ → (o : Op) → Resp o × σ) : Prog Op Resp α → σ → α × σ
  | .ret a, s => (a, s)
  | .call o k, s => against serve (k (serve s o).1) (serve s o).2

variable {serve : σ → (o : Op) → Resp o × σ}

@[simp] theorem against_ret (a : α) (s : σ) : against serve (.ret a) s = (a, s) := rfl

@[simp] theorem against_call (o : Op) (k : Resp o → Prog Op Resp α) (s : σ) :
    against serve (.call o k) s = against serve (k (serve s o).1) (serve s o).2 := rfl

@[simp] theorem against_perform (o : Op) (s : σ) : against serve (perform o) s = serve s o := rfl

theorem against_bind (p : Prog Op Resp α) (f : α → Prog Op Resp β) (s : σ) :
    against serve (p >>= f) s = against serve (f (against serve p s).1) (against serve p s).2 := by
  induction p generalizing s with
  | ret a => rfl
  | call o k ih =>
      rw [call_bind, against_call, against_call]
      exact ih _ _

/-- A first part whose value and last state are known is replaced by them. -/
theorem against_bind_of {p : Prog Op Resp α} {s s' : σ} {a : α} (h : against serve p s = (a, s'))
    (f : α → Prog Op Resp β) : against serve (p >>= f) s = against serve (f a) s' := by
  rw [against_bind, h]

/-- Running an implementation is running the program against the server the handler makes. -/
theorem against_interp {serve : σ → (o : Op') → Resp' o × σ}
    (f : (o : Op) → Prog Op' Resp' (Resp o)) (p : Prog Op Resp α) (s : σ) :
    against serve (interp f p) s = against (fun s o => against serve (f o) s) p s := by
  induction p generalizing s with
  | ret a => rfl
  | call o k ih =>
      rw [interp_call, against_bind, against_call]
      exact ih _ _

/-- A server that keeps the assumption makes a program meet its specification. -/
theorem Spec.against {A : (o : Op) → Resp o → Prop} {G : Op → Prop} {p : Prog Op Resp α}
    {Q : α → Prop} (h : Spec A G p Q) (hserve : ∀ s o, G o → A o (serve s o).1) (s : σ) :
    Q (Prog.against serve p s).1 := by
  induction p generalizing s with
  | ret a => exact h
  | call o k ih =>
      rw [against_call]
      exact ih _ (h.2 _ (hserve s o h.1)) _

/-- Where all it asks has one answer, a program has one value. -/
theorem Asks.determined {A : (o : Op) → Resp o → Prop} {G : Op → Prop} {f : (o : Op) → Resp o}
    {p : Prog Op Resp α} (h : Asks G p) (hA : ∀ o r, G o → A o r → r = f o) :
    ∃ a, Spec A G p fun b => b = a := by
  induction p with
  | ret a => exact ⟨a, rfl⟩
  | call o k ih =>
      obtain ⟨ho, hk⟩ := (asks_call o k).mp h
      obtain ⟨a, ha⟩ := ih (f o) (hk _)
      refine ⟨a, ho, ?_⟩
      intro r hr
      rw [hA o r ho hr]
      exact ha

section Single

variable {fatal : F → Bool}

/-- There is no second child. -/
theorem follow_succ (i : Nat) (rest : List Nat) (first : Option F)
    (p : Prog Op Resp (Except F α)) :
    follow fatal ((i + 1) :: rest) first [p] = follow fatal rest first [p] := by
  have hnone : childAt i ([] : List (Prog Op Resp (Except F α))) = none := by
    cases i <;> rfl
  rw [follow, childAt, hnone]
  rfl

theorem follow_failed (order : List Nat) (e : F) :
    follow fatal order (some e) [(.ret (.error e) : Prog Op Resp (Except F α))]
      = .ret (.error e) := by
  induction order with
  | nil => rfl
  | cons i rest ih =>
      cases i with
      | zero => exact ih
      | succ i =>
          rw [follow_succ]
          exact ih

theorem finish_one (p : Prog Op Resp (Except F α)) :
    finish fatal none [p] = p >>= fun r => .ret (r.map fun a => [a]) := by
  rw [finish]
  congr 1
  funext r
  cases r with
  | error e =>
      change (if fatal e then Prog.ret (.error e) else finish fatal (some e) []) = _
      split_ifs <;> rfl
  | ok a => rfl

/-- A child that runs alone runs as it does anywhere. -/
theorem follow_one (order : List Nat) (p : Prog Op Resp (Except F α)) :
    follow fatal order none [p] = p >>= fun r => .ret (r.map fun a => [a]) := by
  induction order generalizing p with
  | nil => exact finish_one p
  | cons i rest ih =>
      cases i with
      | succ i =>
          rw [follow_succ]
          exact ih p
      | zero =>
          cases p with
          | ret a => exact ih (.ret a)
          | call o k =>
              rw [call_bind, follow]
              change Prog.call o _ = _
              congr 1
              funext x
              generalize k x = q
              cases q with
              | call o' k' => exact ih (.call o' k')
              | ret r =>
                  cases r with
                  | ok a => exact ih (.ret (.ok a))
                  | error e =>
                      change (if fatal e then Prog.ret (.error e)
                        else follow fatal rest (some e) [.ret (.error e)]) = _
                      rw [follow_failed]
                      split_ifs <;> rfl

end Single

end Prog

end Interaction
