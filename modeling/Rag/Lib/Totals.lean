import Rag.Lib.Gather

/-!
Exact totals over the events of a program.

Each event adds its weight to a count. `Totals w Q p n` says that every complete run of
`p`, begun with the count at `n`, returns a value and ends with a count that `Q` accepts.
Children that run next to each other under `gather` have a count each; whatever the
schedule, the counts of the children add up to the count of the whole.
-/

namespace Interaction

namespace Prog

variable {Op : Type} {Resp : Op → Type} {F α β : Type} {w : Event Op Resp → ℕ}

def Totals (w : Event Op Resp → ℕ) (Q : ℕ → α → Prop) : Prog Op Resp α → ℕ → Prop
  | .ret a, n => Q n a
  | .call o k, n => ∀ x, Totals w Q (k x) (n + w ⟨o, x⟩)

theorem Totals.mono {Q Q' : ℕ → α → Prop} {p : Prog Op Resp α} {n : ℕ} (h : Totals w Q p n)
    (hQ : ∀ m a, Q m a → Q' m a) : Totals w Q' p n := by
  induction p generalizing n with
  | ret a => exact hQ n a h
  | call o k ih => exact fun x => ih x (h x)

theorem totals_bind (p : Prog Op Resp α) (f : α → Prog Op Resp β) (Q : ℕ → β → Prop) (n : ℕ) :
    Totals w Q (p >>= f) n ↔ Totals w (fun m a => Totals w Q (f a) m) p n := by
  induction p generalizing n with
  | ret a => rfl
  | call o k ih => exact forall_congr' fun x => ih x (n + w ⟨o, x⟩)

theorem Totals.runs {Q : ℕ → α → Prop} {p : Prog Op Resp α} {n : ℕ} {t : List (Event Op Resp)}
    {a : α} (h : Totals w Q p n) (hr : Runs p t a) : Q (n + (t.map w).sum) a := by
  induction p generalizing n t with
  | ret b =>
      obtain ⟨rfl, rfl⟩ := (runs_ret_iff _ _ _).mp hr
      exact h
  | call o k ih =>
      obtain ⟨x, u, rfl, hu⟩ := (runs_call_iff _ _ _ _).mp hr
      have htail := ih x (h x) hu
      rw [List.map_cons, List.sum_cons, ← Nat.add_assoc]
      exact htail

/-- The value that `p` returns, unless it fails, is worth what `p` has counted. -/
def Accounts (w : Event Op Resp → ℕ) (worth : α → ℕ) (p : Prog Op Resp (Except F α)) (n : ℕ) : Prop :=
  Totals w (fun m r => ∀ a, r = .ok a → m = worth a) p n

section Children

variable {fatal : F → Bool} {worth : α → ℕ} {ps : List (Prog Op Resp (Except F α))} {ns : List ℕ}
  {t : List (Event Op Resp)} {as : List α}

theorem accounts_error (e : F) (n : ℕ) :
    Accounts w worth (.ret (.error e) : Prog Op Resp (Except F α)) n := by
  rintro a ⟨⟩

/-- The children that are left are counted one after the other. -/
theorem finish_accounts (h : List.Forall₂ (Accounts w worth) ps ns)
    (hr : Runs (finish fatal none ps) t (.ok as)) :
    ns.sum + (t.map w).sum = (as.map worth).sum := by
  induction h generalizing t as with
  | nil =>
      obtain ⟨rfl, ⟨⟩⟩ := (runs_ret_iff _ _ _).mp hr
      rfl
  | cons hp _ ih =>
      rw [finish] at hr
      obtain ⟨u, s, v, hu, hv, rfl⟩ := (runs_bind_iff _ _ _ _).mp hr
      cases s with
      | error e =>
          dsimp only at hv
          split_ifs at hv
          · cases ((runs_ret_iff _ _ _).mp hv).2
          · cases finish_some hv
      | ok a =>
          obtain ⟨s, hs, hmap⟩ := (runs_map_iff _ _ _ _).mp hv
          cases s with
          | error e => cases hmap
          | ok rest =>
              cases hmap
              have hfirst := hp.runs hu a rfl
              have hrest := ih hs
              simp only [List.sum_cons, List.map_append, List.sum_append, List.map_cons]
              omega

theorem follow_accounts {order : List ℕ} (h : List.Forall₂ (Accounts w worth) ps ns)
    (hr : Runs (follow fatal order none ps) t (.ok as)) :
    ns.sum + (t.map w).sum = (as.map worth).sum := by
  induction order generalizing ps ns t with
  | nil => exact finish_accounts h hr
  | cons i rest ih =>
      rcases follow_cons fatal i rest none ps with hf | ⟨before, o, k, after, rfl, hf⟩
      · exact ih h (hf ▸ hr)
      · obtain ⟨ms, ns', hbefore, hrest, rfl⟩ := forall₂_append_left h
        obtain ⟨n, ms', hcall, hafter, rfl⟩ := List.forall₂_cons_left_iff.mp hrest
        rw [hf] at hr
        obtain ⟨x, u, rfl, hu⟩ := (runs_call_iff _ _ _ _).mp hr
        split at hu
        · split_ifs at hu
          · cases ((runs_ret_iff _ _ _).mp hu).2
          · cases follow_some hu
        · -- the child that advanced carries the weight of its event
          have hset : List.Forall₂ (Accounts w worth) (before ++ k x :: after)
              (ms ++ (n + w ⟨o, x⟩) :: ms') := List.rel_append hbefore (.cons (hcall x) hafter)
          have htail := ih hset hu
          simp only [List.sum_append, List.sum_cons] at htail
          simp only [List.sum_append, List.sum_cons, List.map_cons]
          omega

/-- Children that start with nothing counted are together worth the events of a gathered
run. -/
theorem gather_accounts {schedule : Op} {order : Resp schedule → List ℕ}
    (hschedule : ∀ x, w ⟨schedule, x⟩ = 0) (hps : ∀ p ∈ ps, Accounts w worth p 0)
    (hr : Runs (gather fatal schedule order ps) t (.ok as)) :
    (t.map w).sum = (as.map worth).sum := by
  obtain ⟨x, u, rfl, hu⟩ := (runs_call_iff _ _ _ _).mp hr
  have hcounts : List.Forall₂ (Accounts w worth) ps (ps.map fun _ => 0) := by
    rw [List.forall₂_map_right_iff]
    exact List.forall₂_same.mpr hps
  have htotal := follow_accounts hcounts hu
  rw [List.map_cons, List.sum_cons, hschedule x, ← htotal]
  simp

end Children

end Prog

end Interaction
