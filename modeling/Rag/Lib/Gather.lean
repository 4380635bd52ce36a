import Rag.Lib.Spec
import Mathlib.Algebra.BigOperators.Group.List.Basic
import Mathlib.Algebra.GroupWithZero.Nat

/-!
Concurrent children of one program, in the manner of `asyncio.gather`.

`gather` runs a list of programs whose operations interleave. The interleaving is the
answer of one operation `schedule`: a list of children, each of which advances by one
operation when its turn comes; what the schedule does not reach is run in order at the
end. Every finite interleaving is one of these.

The first child to fail decides the outcome. Its siblings still run to their end, unless
the failure is one that cancels them (`fatal`).
-/

namespace Interaction

namespace Prog

variable {Op : Type} {Resp : Op → Type} {F E α : Type}

/-- Child `i` with the children before and after it. -/
def childAt : Nat → List α → Option (List α × α × List α)
  | _, [] => none
  | 0, p :: ps => some ([], p, ps)
  | i + 1, p :: ps => (childAt i ps).map fun z => (p :: z.1, z.2)

theorem childAt_eq {i : Nat} {ps : List α} {z : List α × α × List α}
    (h : childAt i ps = some z) : ps = z.1 ++ z.2.1 :: z.2.2 := by
  induction ps generalizing i z with
  | nil => cases i <;> cases h
  | cons p ps ih =>
      cases i with
      | zero =>
          cases h
          rfl
      | succ i =>
          obtain ⟨w, hw, rfl⟩ := Option.map_eq_some_iff.mp h
          have htail := ih hw
          simpa using htail

section Gather

variable (fatal : F → Bool)

/-- The children that are left, one after the other. -/
def finish : Option F → List (Prog Op Resp (Except F α)) → Prog Op Resp (Except F (List α))
  | none, [] => .ret (.ok [])
  | some e, [] => .ret (.error e)
  | first, p :: ps => p >>= fun r =>
      match first, r with
      | none, .error e => if fatal e then .ret (.error e) else finish (some e) ps
      | first, .error _ => finish first ps
      | first, .ok a => (finish first ps).map fun s => s.map fun as => a :: as

/-- Follow a schedule. `first` is the first failure so far. -/
def follow : List Nat → Option F → List (Prog Op Resp (Except F α)) →
    Prog Op Resp (Except F (List α))
  | [], first, ps => finish fatal first ps
  | i :: rest, first, ps =>
      match childAt i ps with
      | some (before, .call o k, after) => .call o fun x =>
          match first, k x with
          | none, .ret (.error e) =>
              if fatal e then .ret (.error e)
              else follow rest (some e) (before ++ .ret (.error e) :: after)
          | first, p => follow rest first (before ++ p :: after)
      | _ => follow rest first ps

/-- All children, in the order of the list, under a schedule the environment picks. -/
def gather (schedule : Op) (order : Resp schedule → List Nat)
    (ps : List (Prog Op Resp (Except F α))) : Prog Op Resp (Except F (List α)) :=
  .call schedule fun x => follow fatal (order x) none ps

end Gather

variable {fatal : F → Bool}

/-- A scheduled step: the child that advances, or a turn without effect. -/
theorem follow_cons (fatal : F → Bool) (i : Nat) (rest : List Nat) (first : Option F)
    (ps : List (Prog Op Resp (Except F α))) :
    follow fatal (i :: rest) first ps = follow fatal rest first ps
      ∨ ∃ before o k after, ps = before ++ .call o k :: after
        ∧ follow fatal (i :: rest) first ps = .call o fun x =>
          match first, k x with
          | none, .ret (.error e) =>
              if fatal e then .ret (.error e)
              else follow fatal rest (some e) (before ++ .ret (.error e) :: after)
          | first, p => follow fatal rest first (before ++ p :: after) := by
  rw [follow]
  split
  · rename_i before o k after h
    exact Or.inr ⟨before, o, k, after, childAt_eq h, rfl⟩
  · exact Or.inl rfl

theorem forall₂_append_left {β : Type} {R : α → β → Prop} {as bs : List α} {cs : List β}
    (h : List.Forall₂ R (as ++ bs) cs) :
    ∃ cs₁ cs₂, List.Forall₂ R as cs₁ ∧ List.Forall₂ R bs cs₂ ∧ cs = cs₁ ++ cs₂ := by
  induction as generalizing cs with
  | nil => exact ⟨[], cs, .nil, h, rfl⟩
  | cons a as ih =>
      obtain ⟨c, cs', hac, hrest, rfl⟩ := List.forall₂_cons_left_iff.mp h
      obtain ⟨cs₁, cs₂, h₁, h₂, rfl⟩ := ih hrest
      exact ⟨c :: cs₁, cs₂, .cons hac h₁, h₂, rfl⟩

section Spec

variable {A : (o : Op) → Resp o → Prop} {G : Op → Prop} {P : Except F α → Prop}

/-- What `Spec.gather` promises of the outcome. -/
def Gathered (P : Except F α → Prop) (s : Except F (List α)) : Prop :=
  (∀ xs, s = .ok xs → ∀ x ∈ xs, P (.ok x)) ∧ ∀ e, s = .error e → P (.error e)

theorem Spec.finish {first : Option F} {ps : List (Prog Op Resp (Except F α))}
    (hfirst : ∀ e, first = some e → P (.error e)) (hps : ∀ p ∈ ps, Spec A G p P) :
    Spec A G (Prog.finish fatal first ps) (Gathered P) := by
  induction ps generalizing first with
  | nil =>
      cases first with
      | none => simp [Prog.finish, Gathered]
      | some e => simpa [Prog.finish, Gathered] using hfirst
  | cons p ps ih =>
      have htail : ∀ q ∈ ps, Spec A G q P := fun q hq => hps q (List.mem_cons_of_mem _ hq)
      have hmap : ∀ a, P (.ok a) → Spec A G
          ((Prog.finish fatal first ps).map fun s => s.map fun as => a :: as) (Gathered P) := by
        intro a ha
        rw [spec_map]
        refine (ih hfirst htail).mono ?_
        rintro (e | as) ⟨hok, herr⟩
        · simpa [Except.map, Gathered] using herr
        · simpa [Except.map, Gathered, ha] using hok
      rw [Prog.finish, spec_bind]
      refine (hps p List.mem_cons_self).mono ?_
      rintro (e | a) hr
      · cases first with
        | none =>
            dsimp only
            split_ifs
            · simpa [Gathered] using hr
            · refine ih ?_ htail
              rintro e' ⟨⟩
              exact hr
        | some e' => exact ih hfirst htail
      · cases first <;> exact hmap a hr

theorem Spec.follow {order : List Nat} {first : Option F}
    {ps : List (Prog Op Resp (Except F α))} (hfirst : ∀ e, first = some e → P (.error e))
    (hps : ∀ p ∈ ps, Spec A G p P) :
    Spec A G (Prog.follow fatal order first ps) (Gathered P) := by
  induction order generalizing first ps with
  | nil => exact Spec.finish hfirst hps
  | cons i rest ih =>
      rcases follow_cons fatal i rest first ps with h | ⟨before, o, k, after, rfl, h⟩
      · rw [h]
        exact ih hfirst hps
      · have hcall := hps (.call o k) (by simp)
        rw [h]
        refine ⟨hcall.1, fun x hx => ?_⟩
        have hset : ∀ p, p = k x → ∀ q ∈ before ++ p :: after, Spec A G q P := by
          rintro p rfl q hq
          rcases List.mem_append.mp hq with hq | hq
          · exact hps q (by simp [hq])
          · rcases List.mem_cons.mp hq with rfl | hq
            · exact hcall.2 x hx
            · exact hps q (by simp [hq])
        dsimp only
        split
        · rename_i e he
          have hk := hcall.2 x hx
          rw [he] at hk
          split_ifs
          · simpa [Gathered] using hk
          · refine ih ?_ (hset _ he.symm)
            rintro e' ⟨⟩
            exact hk
        · exact ih hfirst (hset _ rfl)

/-- Every child meets its specification, so every value gathered meets `P`, and a
failure is the failure of a child. -/
theorem Spec.gather {schedule : Op} {order : Resp schedule → List Nat}
    {ps : List (Prog Op Resp (Except F α))} (hschedule : G schedule)
    (hps : ∀ p ∈ ps, Spec A G p P) :
    Spec A G (Prog.gather fatal schedule order ps) (Gathered P) :=
  ⟨hschedule, fun _ _ => Spec.follow (by simp) hps⟩

-- The values gathered stand in the order of the children.
section Ordered

variable {β : Type} {R : β → α → Prop} {bs : List β}

/-- `p` returns a value for `b`, unless it fails. -/
def ReturnsFor (A : (o : Op) → Resp o → Prop) (G : Op → Prop) (R : β → α → Prop)
    (p : Prog Op Resp (Except F α)) (b : β) : Prop :=
  Spec A G p fun r => ∀ a, r = .ok a → R b a

theorem Spec.finish_forall₂ (first : Option F) {ps : List (Prog Op Resp (Except F α))}
    (h : List.Forall₂ (ReturnsFor A G R) ps bs) :
    Spec A G (Prog.finish fatal first ps)
      fun s => ∀ xs, s = .ok xs → first = none ∧ List.Forall₂ R bs xs := by
  induction h generalizing first with
  | nil =>
      cases first with
      | none => simp [Prog.finish]
      | some e => simp [Prog.finish]
  | @cons p b ps bs hp _ ih =>
      have hmap : ∀ a, R b a → Spec A G
          ((Prog.finish fatal first ps).map fun s => s.map fun as => a :: as)
          fun s => ∀ xs, s = .ok xs → first = none ∧ List.Forall₂ R (b :: bs) xs := by
        intro a ha
        rw [spec_map]
        refine (ih first).mono ?_
        rintro (e | as) hs xs hxs
        · cases hxs
        · cases hxs
          obtain ⟨hfirst, hrest⟩ := hs as rfl
          exact ⟨hfirst, .cons ha hrest⟩
      have hlost : ∀ e, Spec A G (Prog.finish fatal (some e) ps)
          fun s => ∀ xs, s = .ok xs → first = none ∧ List.Forall₂ R (b :: bs) xs := by
        intro e
        refine (ih (some e)).mono ?_
        intro s hs xs hxs
        cases (hs xs hxs).1
      rw [Prog.finish, spec_bind]
      refine Spec.mono hp ?_
      rintro (e | a) hr
      · cases first with
        | none =>
            dsimp only
            split_ifs
            · simp
            · exact hlost e
        | some e' => exact hlost e'
      · cases first <;> exact hmap a (hr a rfl)

theorem Spec.follow_forall₂ {order : List Nat} {first : Option F}
    {ps : List (Prog Op Resp (Except F α))} (h : List.Forall₂ (ReturnsFor A G R) ps bs) :
    Spec A G (Prog.follow fatal order first ps)
      fun s => ∀ xs, s = .ok xs → List.Forall₂ R bs xs := by
  induction order generalizing first ps with
  | nil => exact (Spec.finish_forall₂ first h).mono fun s hs xs hxs => (hs xs hxs).2
  | cons i rest ih =>
      rcases follow_cons fatal i rest first ps with hf | ⟨before, o, k, after, rfl, hf⟩
      · rw [hf]
        exact ih h
      · obtain ⟨bs₁, bs', hbefore, hrest, rfl⟩ := forall₂_append_left h
        obtain ⟨b, bs₂, hcall, hafter, rfl⟩ := List.forall₂_cons_left_iff.mp hrest
        rw [hf]
        refine ⟨hcall.1, fun x hx => ?_⟩
        have hset : ∀ p, ReturnsFor A G R p b →
            List.Forall₂ (ReturnsFor A G R) (before ++ p :: after) (bs₁ ++ b :: bs₂) :=
          fun p hp => List.rel_append hbefore (.cons hp hafter)
        dsimp only
        split
        · split_ifs
          · simp
          · refine ih (hset _ ?_)
            intro a ha
            cases ha
        · exact ih (hset _ (hcall.2 x hx))

/-- Every value gathered is the one of its child. -/
theorem Spec.gather_forall₂ {schedule : Op} {order : Resp schedule → List Nat}
    {ps : List (Prog Op Resp (Except F α))} (hschedule : G schedule)
    (h : List.Forall₂ (ReturnsFor A G R) ps bs) :
    Spec A G (Prog.gather fatal schedule order ps)
      fun s => ∀ xs, s = .ok xs → List.Forall₂ R bs xs :=
  ⟨hschedule, fun _ _ => Spec.follow_forall₂ h⟩

end Ordered

theorem Asks.gather {schedule : Op} {order : Resp schedule → List Nat}
    {ps : List (Prog Op Resp (Except F α))} (hschedule : G schedule)
    (hps : ∀ p ∈ ps, Asks G p) : Asks G (Prog.gather fatal schedule order ps) := by
  simp only [asks_iff] at *
  exact (Spec.gather hschedule hps).mono fun _ _ => trivial

end Spec

section Weight

variable {w : Event Op Resp → Nat}

/-- The operations of every run, finished or not, weigh at most so much together. -/
def AtMost (w : Event Op Resp → Nat) : Prog Op Resp α → Nat → Prop
  | .ret _, _ => True
  | .call o k, n => ∀ x, ∃ m, w ⟨o, x⟩ + m ≤ n ∧ AtMost w (k x) m

theorem AtMost.mono {p : Prog Op Resp α} {m n : Nat} (h : AtMost w p m) (hmn : m ≤ n) :
    AtMost w p n := by
  cases p with
  | ret a => trivial
  | call o k =>
      intro x
      obtain ⟨l, hl, hk⟩ := h x
      exact ⟨l, by omega, hk⟩

theorem AtMost.steps {p q : Prog Op Resp α} {n : Nat} {t : List (Event Op Resp)}
    (h : AtMost w p n) (hs : Steps p t q) : (t.map w).sum ≤ n := by
  induction hs generalizing n with
  | refl _ => simp
  | step x _ ih =>
      obtain ⟨m, hm, hk⟩ := h x
      have htail := ih hk
      simp only [List.map_cons, List.sum_cons]
      omega

theorem AtMost.bind {β : Type} {p : Prog Op Resp α} {f : α → Prog Op Resp β} {m n : Nat}
    (hp : AtMost w p m) (hf : ∀ a, AtMost w (f a) n) : AtMost w (p >>= f) (m + n) := by
  induction p generalizing m with
  | ret a => exact (hf a).mono (by omega)
  | call o k ih =>
      intro x
      obtain ⟨l, hl, hk⟩ := hp x
      exact ⟨l + n, by omega, ih x hk⟩

theorem AtMost.map {β : Type} {p : Prog Op Resp α} {n : Nat} (h : AtMost w p n)
    (f : α → β) : AtMost w (p.map f) n :=
  h.bind fun _ => (show AtMost w (.ret (f _)) 0 from trivial)

/-- A program that only asks operations of weight zero. -/
theorem Asks.atMost {p : Prog Op Resp α} (h : Asks (fun o => ∀ x, w ⟨o, x⟩ = 0) p) :
    AtMost w p 0 := by
  induction p with
  | ret a => trivial
  | call o k ih =>
      obtain ⟨ho, hk⟩ := (asks_call o k).mp h
      intro x
      exact ⟨0, by simp [ho x], ih x (hk x)⟩

theorem AtMost.finish {first : Option F} {ps : List (Prog Op Resp (Except F α))}
    {ns : List Nat} (h : List.Forall₂ (AtMost w) ps ns) :
    AtMost w (Prog.finish fatal first ps) ns.sum := by
  induction h generalizing first with
  | nil => cases first <;> trivial
  | cons hp _ ih =>
      rw [Prog.finish, List.sum_cons]
      refine hp.bind ?_
      rintro (e | a)
      · cases first with
        | none =>
            dsimp only
            split_ifs
            · trivial
            · exact ih
        | some _ => exact ih
      · cases first <;> exact ih.map _

theorem AtMost.follow {order : List Nat} {first : Option F}
    {ps : List (Prog Op Resp (Except F α))} {ns : List Nat}
    (h : List.Forall₂ (AtMost w) ps ns) :
    AtMost w (Prog.follow fatal order first ps) ns.sum := by
  induction order generalizing first ps ns with
  | nil => exact AtMost.finish h
  | cons i rest ih =>
      rcases follow_cons fatal i rest first ps with hf | ⟨before, o, k, after, rfl, hf⟩
      · rw [hf]
        exact ih h
      · obtain ⟨ms, ns', hbefore, hrest, rfl⟩ := forall₂_append_left h
        obtain ⟨n, ms', hcall, hafter, rfl⟩ := List.forall₂_cons_left_iff.mp hrest
        rw [hf]
        intro x
        obtain ⟨m, hm, hk⟩ := hcall x
        refine ⟨(ms ++ m :: ms').sum, by simp only [List.sum_append, List.sum_cons]; omega, ?_⟩
        have hset : ∀ p, AtMost w p m → List.Forall₂ (AtMost w) (before ++ p :: after)
            (ms ++ m :: ms') := fun p hp => List.rel_append hbefore (.cons hp hafter)
        dsimp only
        split
        · split_ifs
          · trivial
          · exact ih (hset _ trivial)
        · exact ih (hset _ hk)

theorem AtMost.gather {schedule : Op} {order : Resp schedule → List Nat}
    {ps : List (Prog Op Resp (Except F α))} {n : Nat} (hschedule : ∀ x, w ⟨schedule, x⟩ = 0)
    (hps : ∀ p ∈ ps, AtMost w p n) :
    AtMost w (Prog.gather fatal schedule order ps) (n * ps.length) := by
  intro x
  have hbounds : List.Forall₂ (AtMost w) ps (ps.map fun _ => n) := by
    rw [List.forall₂_map_right_iff]
    exact List.forall₂_same.mpr hps
  refine ⟨n * ps.length, by rw [hschedule x]; omega, ?_⟩
  refine (AtMost.follow hbounds).mono ?_
  simp [Nat.mul_comm]

end Weight

-- A child fails at once where one of its operations is a fault (`fault` says which), so the
-- outcome of a gathered run reports the first fault of its trace. `raised` says which fault a
-- failure carries; a failure that carries none is a cancellation.
section Faults

variable (fault : Event Op Resp → Option E) (raised : F → Option E)

def reported (r : Except F α) : Option E :=
  match r with
  | .ok _ => none
  | .error e => raised e

/-- Nothing has failed so far, and a fault ends the program with its failure. -/
def Reports : Prog Op Resp (Except F α) → Prop
  | .ret r => reported raised r = none
  | .call o k => ∀ x, match fault ⟨o, x⟩ with
    | none => Reports (k x)
    | some f => ∃ e, k x = .ret (.error e) ∧ raised e = some f

variable {fault raised}

/-- What follows a failure only passes it on. -/
theorem Reports.bind {β : Type} {p : Prog Op Resp (Except F α)}
    {f : Except F α → Prog Op Resp (Except F β)} (hp : Reports fault raised p)
    (herror : ∀ e, f (.error e) = .ret (.error e)) (hok : ∀ a, Reports fault raised (f (.ok a))) :
    Reports fault raised (p >>= f) := by
  induction p with
  | ret r =>
      cases r with
      | error e =>
          rw [ret_bind, herror]
          exact hp
      | ok a => exact hok a
  | call o k ih =>
      intro x
      have hx := hp x
      dsimp only
      split at hx
      · exact ih x hx
      · obtain ⟨e, hk, he⟩ := hx
        refine ⟨e, ?_, he⟩
        rw [hk]
        exact herror e

theorem Reports.runs {p : Prog Op Resp (Except F α)} {t : List (Event Op Resp)}
    {r : Except F α} (h : Reports fault raised p) (hr : Runs p t r) :
    t.findSome? fault = reported raised r := by
  induction p generalizing t with
  | ret r' =>
      obtain ⟨rfl, rfl⟩ := (runs_ret_iff _ _ _).mp hr
      exact h.symm
  | call o k ih =>
      obtain ⟨x, u, rfl, hu⟩ := (runs_call_iff _ _ _ _).mp hr
      have hx := h x
      rw [List.findSome?_cons]
      split at hx
      · rename_i hf
        rw [hf]
        exact ih x hx hu
      · rename_i f hf
        obtain ⟨e, hk, he⟩ := hx
        rw [hk] at hu
        obtain ⟨rfl, rfl⟩ := (runs_ret_iff _ _ _).mp hu
        rw [hf]
        exact he.symm

theorem finish_some {e : F} {ps : List (Prog Op Resp (Except F α))}
    {t : List (Event Op Resp)} {r : Except F (List α)}
    (hr : Runs (finish fatal (some e) ps) t r) : r = .error e := by
  induction ps generalizing t r with
  | nil =>
      obtain ⟨-, rfl⟩ := (runs_ret_iff _ _ _).mp hr
      rfl
  | cons p ps ih =>
      rw [finish] at hr
      obtain ⟨u, s, v, -, hv, rfl⟩ := (runs_bind_iff _ _ _ _).mp hr
      cases s with
      | error _ => exact ih hv
      | ok a =>
          obtain ⟨s, hs, rfl⟩ := (runs_map_iff _ _ _ _).mp hv
          rw [ih hs]
          rfl

theorem follow_some {order : List Nat} {e : F} {ps : List (Prog Op Resp (Except F α))}
    {t : List (Event Op Resp)} {r : Except F (List α)}
    (hr : Runs (follow fatal order (some e) ps) t r) : r = .error e := by
  induction order generalizing ps t with
  | nil => exact finish_some hr
  | cons i rest ih =>
      rcases follow_cons fatal i rest (some e) ps with h | ⟨before, o, k, after, rfl, h⟩
      · exact ih (h ▸ hr)
      · rw [h] at hr
        obtain ⟨x, u, rfl, hu⟩ := (runs_call_iff _ _ _ _).mp hr
        exact ih hu

theorem finish_reports {ps : List (Prog Op Resp (Except F α))} {t : List (Event Op Resp)}
    {r : Except F (List α)} (hps : ∀ p ∈ ps, Reports fault raised p)
    (hcancel : ∀ e, raised e = none → fatal e = true)
    (hr : Runs (finish fatal none ps) t r) : t.findSome? fault = reported raised r := by
  induction ps generalizing t r with
  | nil =>
      obtain ⟨rfl, rfl⟩ := (runs_ret_iff _ _ _).mp hr
      rfl
  | cons p ps ih =>
      rw [finish] at hr
      obtain ⟨u, s, v, hu, hv, rfl⟩ := (runs_bind_iff _ _ _ _).mp hr
      have hp := (hps p List.mem_cons_self).runs hu
      rw [List.findSome?_append, hp]
      cases s with
      | error e =>
          dsimp only at hv
          split_ifs at hv with hfatal
          · obtain ⟨rfl, rfl⟩ := (runs_ret_iff _ _ _).mp hv
            simp [reported]
          · rw [finish_some hv]
            cases he : raised e with
            | none => exact absurd (hcancel e he) hfatal
            | some f => simp [reported, he]
      | ok a =>
          obtain ⟨s, hs, rfl⟩ := (runs_map_iff _ _ _ _).mp hv
          have htail := ih (fun q hq => hps q (List.mem_cons_of_mem _ hq)) hs
          rw [htail]
          cases s <;> simp [reported, Except.map]

/-- The outcome of gathered children is the first fault of their trace. -/
theorem follow_reports {order : List Nat} {ps : List (Prog Op Resp (Except F α))}
    {t : List (Event Op Resp)} {r : Except F (List α)}
    (hps : ∀ p ∈ ps, Reports fault raised p) (hcancel : ∀ e, raised e = none → fatal e = true)
    (hr : Runs (follow fatal order none ps) t r) :
    t.findSome? fault = reported raised r := by
  induction order generalizing ps t with
  | nil => exact finish_reports hps hcancel hr
  | cons i rest ih =>
      rcases follow_cons fatal i rest none ps with h | ⟨before, o, k, after, rfl, h⟩
      · exact ih hps (h ▸ hr)
      · rw [h] at hr
        obtain ⟨x, u, rfl, hu⟩ := (runs_call_iff _ _ _ _).mp hr
        have hcall := hps (.call o k) (by simp) x
        have hset : ∀ p, Reports fault raised p →
            ∀ q ∈ before ++ p :: after, Reports fault raised q := by
          intro p hp q hq
          rcases List.mem_append.mp hq with hq | hq
          · exact hps q (by simp [hq])
          · rcases List.mem_cons.mp hq with rfl | hq
            · exact hp
            · exact hps q (by simp [hq])
        rw [List.findSome?_cons]
        split at hcall
        · rename_i hf
          rw [hf]
          split at hu
          · rename_i e _ he
            have hnone : raised e = none := by
              rw [he] at hcall
              exact hcall
            rw [if_pos (hcancel e hnone)] at hu
            obtain ⟨rfl, rfl⟩ := (runs_ret_iff _ _ _).mp hu
            simp [reported, hnone]
          · exact ih (hset _ hcall) hu
        · rename_i f hf
          obtain ⟨e, hk, he⟩ := hcall
          rw [hf]
          rw [hk] at hu
          dsimp only at hu
          split_ifs at hu
          · obtain ⟨rfl, rfl⟩ := (runs_ret_iff _ _ _).mp hu
            simp [reported, he]
          · rw [follow_some hu]
            simp [reported, he]

theorem gather_reports {schedule : Op} {order : Resp schedule → List Nat}
    {ps : List (Prog Op Resp (Except F α))} {t : List (Event Op Resp)}
    {r : Except F (List α)} (hschedule : ∀ x, fault ⟨schedule, x⟩ = none)
    (hps : ∀ p ∈ ps, Reports fault raised p) (hcancel : ∀ e, raised e = none → fatal e = true)
    (hr : Runs (gather fatal schedule order ps) t r) :
    t.findSome? fault = reported raised r := by
  obtain ⟨x, u, rfl, hu⟩ := (runs_call_iff _ _ _ _).mp hr
  rw [List.findSome?_cons, hschedule x]
  exact follow_reports hps hcancel hu

end Faults

end Prog

end Interaction
