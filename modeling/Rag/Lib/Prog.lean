import Mathlib.Data.List.Basic
import Mathlib.Tactic.Common

/-!
Programs that talk to an environment. A program is a tree: it either returns a
value or asks one operation and continues with whatever the environment answers.
Nothing is assumed about the answers, so a statement about every run of a program
is a statement about every behaviour of everything the program talks to.

`Steps` reads a program relationally (which traces it can produce), `exec` runs it
against a given environment, and `Spec` is the assume/guarantee reading: as long as
the answers meet `A`, every operation asked meets `G` and the value returned meets
`Q`. The three are tied together below.
-/

namespace Interaction

/-- A program over the operations `Op`, each answered in its own type. -/
inductive Prog (Op : Type) (Resp : Op → Type) (α : Type) where
  | ret (a : α)
  | call (o : Op) (k : Resp o → Prog Op Resp α)

/-- One operation together with the answer it got. -/
structure Event (Op : Type) (Resp : Op → Type) where
  op : Op
  resp : Resp op

variable {Op : Type} {Resp : Op → Type} {α β γ σ ρ : Type}

namespace Prog

protected def bind : Prog Op Resp α → (α → Prog Op Resp β) → Prog Op Resp β
  | .ret a, f => f a
  | .call o k, f => .call o fun r => (k r).bind f

instance : Monad (Prog Op Resp) where
  pure := .ret
  bind := Prog.bind

/-- Ask one operation and return its answer. -/
def perform (o : Op) : Prog Op Resp (Resp o) := .call o .ret

@[simp] theorem pure_eq (a : α) : (pure a : Prog Op Resp α) = .ret a := rfl

@[simp] theorem ret_bind (a : α) (f : α → Prog Op Resp β) : (Prog.ret a >>= f) = f a := rfl

@[simp] theorem call_bind (o : Op) (k : Resp o → Prog Op Resp α) (f : α → Prog Op Resp β) :
    (Prog.call o k >>= f) = .call o fun r => k r >>= f := rfl

@[simp] theorem perform_bind (o : Op) (f : Resp o → Prog Op Resp β) :
    (perform o >>= f) = .call o f := rfl

theorem bind_assoc (p : Prog Op Resp α) (f : α → Prog Op Resp β) (g : β → Prog Op Resp γ) :
    (p >>= f) >>= g = p >>= fun a => f a >>= g := by
  induction p with
  | ret a => rfl
  | call o k ih =>
      simp only [call_bind]
      congr 1
      funext r
      exact ih r

theorem bind_ret (p : Prog Op Resp α) : p >>= Prog.ret = p := by
  induction p with
  | ret a => rfl
  | call o k ih =>
      simp only [call_bind]
      congr 1
      funext r
      exact ih r

instance : LawfulMonad (Prog Op Resp) :=
  .mk' (Prog Op Resp) bind_ret (fun _ _ => rfl) bind_assoc

/-- The value of a program that has returned. -/
def value? : Prog Op Resp α → Option α
  | .ret a => some a
  | .call _ _ => none

theorem eq_ret_of_value? {p : Prog Op Resp α} {a : α} (h : p.value? = some a) : p = .ret a := by
  cases p with
  | ret b =>
      cases h
      rfl
  | call o k => cases h

/-- `Steps p t q`: after the operations and answers of `t`, the rest of `p` is `q`. -/
inductive Steps : Prog Op Resp α → List (Event Op Resp) → Prog Op Resp α → Prop
  | refl (p : Prog Op Resp α) : Steps p [] p
  | step {o : Op} {k : Resp o → Prog Op Resp α} {t : List (Event Op Resp)}
      {q : Prog Op Resp α} (r : Resp o) (h : Steps (k r) t q) :
      Steps (.call o k) (⟨o, r⟩ :: t) q

/-- A complete run: the trace `t` ends in the value `a`. -/
abbrev Runs (p : Prog Op Resp α) (t : List (Event Op Resp)) (a : α) : Prop :=
  Steps p t (.ret a)

theorem Steps.trans {p q s : Prog Op Resp α} {t u : List (Event Op Resp)}
    (h : Steps p t q) (h' : Steps q u s) : Steps p (t ++ u) s := by
  induction h with
  | refl _ => exact h'
  | step r _ ih => exact .step r (ih h')

theorem steps_ret_iff (a : α) (t : List (Event Op Resp)) (q : Prog Op Resp α) :
    Steps (.ret a) t q ↔ t = [] ∧ q = .ret a := by
  constructor
  · rintro ⟨⟩
    exact ⟨rfl, rfl⟩
  · rintro ⟨rfl, rfl⟩
    exact .refl _

@[simp] theorem runs_ret_iff (a b : α) (t : List (Event Op Resp)) :
    Runs (.ret a : Prog Op Resp α) t b ↔ t = [] ∧ a = b := by
  rw [Runs, steps_ret_iff]
  constructor <;> rintro ⟨ht, h⟩ <;> refine ⟨ht, ?_⟩
  · cases h
    rfl
  · rw [h]

@[simp] theorem runs_call_iff (o : Op) (k : Resp o → Prog Op Resp α)
    (t : List (Event Op Resp)) (b : α) :
    Runs (.call o k) t b ↔ ∃ r u, t = ⟨o, r⟩ :: u ∧ Runs (k r) u b := by
  constructor
  · intro h
    cases h with
    | step r h => exact ⟨r, _, rfl, h⟩
  · rintro ⟨r, u, rfl, h⟩
    exact .step r h

theorem runs_perform_iff (o : Op) (t : List (Event Op Resp)) (r : Resp o) :
    Runs (perform o) t r ↔ t = [⟨o, r⟩] := by
  rw [perform, runs_call_iff]
  constructor
  · rintro ⟨r', u, rfl, h⟩
    obtain ⟨rfl, rfl⟩ := (runs_ret_iff _ _ _).mp h
    rfl
  · rintro rfl
    exact ⟨r, [], rfl, .refl _⟩

theorem runs_perform_bind_iff (o : Op) (f : Resp o → Prog Op Resp α)
    (t : List (Event Op Resp)) (b : α) :
    Runs (perform o >>= f) t b ↔ ∃ r u, t = ⟨o, r⟩ :: u ∧ Runs (f r) u b :=
  runs_call_iff o f t b

theorem Steps.bind {p q : Prog Op Resp α} {t : List (Event Op Resp)}
    (h : Steps p t q) (f : α → Prog Op Resp β) : Steps (p >>= f) t (q >>= f) := by
  induction h with
  | refl _ => exact .refl _
  | step r _ ih => exact .step r ih

theorem runs_bind_iff (p : Prog Op Resp α) (f : α → Prog Op Resp β)
    (t : List (Event Op Resp)) (b : β) :
    Runs (p >>= f) t b ↔ ∃ t₁ a t₂, Runs p t₁ a ∧ Runs (f a) t₂ b ∧ t = t₁ ++ t₂ := by
  constructor
  · intro h
    induction p generalizing t with
    | ret a => exact ⟨[], a, t, .refl _, h, rfl⟩
    | call o k ih =>
        obtain ⟨r, u, rfl, hu⟩ := (runs_call_iff _ _ _ _).mp h
        obtain ⟨t₁, a, t₂, h₁, h₂, rfl⟩ := ih r u hu
        exact ⟨⟨o, r⟩ :: t₁, a, t₂, .step r h₁, h₂, rfl⟩
  · rintro ⟨t₁, a, t₂, h₁, h₂, rfl⟩
    exact (h₁.bind f).trans h₂

/-- Map the value a program returns. -/
protected def map (f : α → β) (p : Prog Op Resp α) : Prog Op Resp β :=
  p >>= fun a => .ret (f a)

theorem runs_map_iff (p : Prog Op Resp α) (f : α → β) (t : List (Event Op Resp)) (b : β) :
    Runs (p.map f) t b ↔ ∃ a, Runs p t a ∧ f a = b := by
  rw [Prog.map, runs_bind_iff]
  constructor
  · rintro ⟨t₁, a, t₂, h₁, h₂, rfl⟩
    obtain ⟨rfl, rfl⟩ := (runs_ret_iff _ _ _).mp h₂
    exact ⟨a, by simpa using h₁, rfl⟩
  · rintro ⟨a, h, rfl⟩
    exact ⟨t, a, [], h, .refl _, by simp⟩

/-- An environment answers each operation from everything that happened before it, so
quantifying over environments quantifies over every adaptive adversary. -/
abbrev Env (Op : Type) (Resp : Op → Type) : Type :=
  List (Event Op Resp) → (o : Op) → Resp o

def exec (env : Env Op Resp) :
    Prog Op Resp α → List (Event Op Resp) → List (Event Op Resp) × α
  | .ret a, _ => ([], a)
  | .call o k, h =>
      let r := env h o
      let rest := exec env (k r) (h ++ [⟨o, r⟩])
      (⟨o, r⟩ :: rest.1, rest.2)

def trace (env : Env Op Resp) (p : Prog Op Resp α) : List (Event Op Resp) :=
  (p.exec env []).1

def result (env : Env Op Resp) (p : Prog Op Resp α) : α :=
  (p.exec env []).2

theorem exec_runs (env : Env Op Resp) (p : Prog Op Resp α) (h : List (Event Op Resp)) :
    Runs p (p.exec env h).1 (p.exec env h).2 := by
  induction p generalizing h with
  | ret a => exact .refl _
  | call o k ih => exact .step _ (ih (env h o) _)

theorem runs_trace (env : Env Op Resp) (p : Prog Op Resp α) :
    Runs p (p.trace env) (p.result env) :=
  exec_runs env p []

/-- An environment that does not look back gives each operation one answer. -/
theorem mem_trace {f : (o : Op) → Resp o} {p : Prog Op Resp α} {e : Event Op Resp}
    (he : e ∈ p.trace fun _ => f) : e = ⟨e.op, f e.op⟩ := by
  have hexec : ∀ h, e ∈ (p.exec (fun _ => f) h).1 → e = ⟨e.op, f e.op⟩ := by
    clear he
    induction p with
    | ret a =>
        intro h he
        cases he
    | call o k ih =>
        intro h he
        rcases List.mem_cons.mp he with rfl | he
        · rfl
        · exact ih (f o) _ he
  exact hexec [] he

/-- The environment that answers as recorded in `t`. -/
noncomputable def replay [∀ o, Nonempty (Resp o)] (t : List (Event Op Resp)) : Env Op Resp :=
  open Classical in fun h o =>
    if H : ∃ (r : Resp o) (u : List (Event Op Resp)), t = h ++ (⟨o, r⟩ : Event Op Resp) :: u
    then H.choose else Classical.ofNonempty

theorem replay_eq [∀ o, Nonempty (Resp o)] (h : List (Event Op Resp)) (o : Op) (r : Resp o)
    (u : List (Event Op Resp)) : replay (h ++ ⟨o, r⟩ :: u) h o = r := by
  have hrecorded : ∃ r' v, h ++ ⟨o, r⟩ :: u = h ++ ⟨o, r'⟩ :: v := ⟨r, u, rfl⟩
  rw [replay, dif_pos hrecorded]
  obtain ⟨v, hv⟩ := hrecorded.choose_spec
  have hhead := (List.cons.inj (List.append_cancel_left hv)).1
  generalize hrecorded.choose = r' at hhead
  cases hhead
  rfl

/-- Every run is the run against some environment, so the two readings agree. -/
theorem Steps.exec_replay [∀ o, Nonempty (Resp o)] {p : Prog Op Resp α}
    {t : List (Event Op Resp)} {a : α} (hr : Runs p t a) (h : List (Event Op Resp)) :
    p.exec (replay (h ++ t)) h = (t, a) := by
  induction p generalizing t h with
  | ret b =>
      obtain ⟨rfl, rfl⟩ := (runs_ret_iff _ _ _).mp hr
      rfl
  | call o k ih =>
      obtain ⟨r, u, rfl, hu⟩ := (runs_call_iff _ _ _ _).mp hr
      have hanswer : replay (h ++ ⟨o, r⟩ :: u) h o = r := replay_eq h o r u
      have hrest := ih r hu (h ++ [⟨o, r⟩])
      rw [List.append_assoc, List.singleton_append] at hrest
      rw [exec, hanswer, hrest]

theorem Steps.exists_env [∀ o, Nonempty (Resp o)] {p : Prog Op Resp α}
    {t : List (Event Op Resp)} {a : α} (hr : Runs p t a) :
    ∃ env, p.trace env = t ∧ p.result env = a := by
  have hexec := hr.exec_replay []
  exact ⟨replay t, congrArg Prod.fst hexec, congrArg Prod.snd hexec⟩

end Prog

end Interaction
