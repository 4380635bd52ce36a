import Rag.Lib.Spec
import Mathlib.Logic.Relation
import Mathlib.Logic.Function.Basic

/-!
Any number of programs that run interleaved over one shared state.

`cell` says how the shared state may answer an operation and what it becomes; what an
operation may do can depend on the trace of the program that asks it. `env` is what
happens to the shared state besides. A specification that each program meets alone, with
answers guaranteed by an invariant of the shared state that its operations keep, holds in
every interleaving (`Pool.spec`).
-/

namespace Interaction

variable {Op : Type} {Resp : Op → Type} {ι σ α : Type}

/-- The shared state, and for each program what is left of it and what it has done. -/
structure Pool (Op : Type) (Resp : Op → Type) (ι σ α : Type) where
  shared : σ
  rest : ι → Prog Op Resp α
  done : ι → List (Event Op Resp)

namespace Pool

/-- Nothing has run yet. -/
def start (shared : σ) (programs : ι → Prog Op Resp α) : Pool Op Resp ι σ α :=
  ⟨shared, programs, fun _ => []⟩

variable [DecidableEq ι]

/-- Program `i` has had its next operation answered. -/
def advance (p : Pool Op Resp ι σ α) (i : ι) (shared : σ) (e : Event Op Resp)
    (rest : Prog Op Resp α) : Pool Op Resp ι σ α where
  shared := shared
  rest := Function.update p.rest i rest
  done := Function.update p.done i (p.done i ++ [e])

variable (cell : σ → List (Event Op Resp) → (o : Op) → Resp o → σ → Prop) (env : σ → σ → Prop)

inductive Step : Pool Op Resp ι σ α → Pool Op Resp ι σ α → Prop
  | call {p : Pool Op Resp ι σ α} (i : ι) {o : Op} {k : Resp o → Prog Op Resp α} (r : Resp o)
      {shared : σ} (hnext : p.rest i = .call o k) (hcell : cell p.shared (p.done i) o r shared) :
      Step p (p.advance i shared ⟨o, r⟩ (k r))
  | outside {p : Pool Op Resp ι σ α} {shared : σ} (henv : env p.shared shared) :
      Step p { p with shared := shared }

/-- Reachable by some interleaving. -/
abbrev Reaches : Pool Op Resp ι σ α → Pool Op Resp ι σ α → Prop :=
  Relation.ReflTransGen (Step cell env)

variable {cell env}

/-- An invariant of the shared state together with one of each program: a step of a
program keeps its own and the shared one. -/
theorem invariant {J : σ → Prop} {L : ι → List (Event Op Resp) → Prog Op Resp α → Prop}
    (hcall : ∀ s i t o k r s', J s → L i t (.call o k) → cell s t o r s' →
      J s' ∧ L i (t ++ [⟨o, r⟩]) (k r))
    (henv : ∀ s s', J s → env s s' → J s') {p q : Pool Op Resp ι σ α}
    (hJ : J p.shared) (hL : ∀ i, L i (p.done i) (p.rest i)) (h : Reaches cell env p q) :
    J q.shared ∧ ∀ i, L i (q.done i) (q.rest i) := by
  induction h with
  | refl => exact ⟨hJ, hL⟩
  | tail _ hstep ih =>
      obtain ⟨hJ', hL'⟩ := ih
      cases hstep with
      | @call i o k r shared hnext hcell =>
          have hi := hL' i
          rw [hnext] at hi
          obtain ⟨hshared, hlocal⟩ := hcall _ _ _ _ _ _ _ hJ' hi hcell
          refine ⟨hshared, ?_⟩
          intro j
          by_cases hj : j = i
          · subst hj
            simpa [advance] using hlocal
          · simpa [advance, hj] using hL' j
      | outside henv' => exact ⟨henv _ _ hJ' henv', hL'⟩

/-- Every program is on a run of its own. -/
theorem reaches_steps {shared : σ} {programs : ι → Prog Op Resp α} {q : Pool Op Resp ι σ α}
    (h : Reaches cell env (start shared programs) q) (i : ι) :
    Prog.Steps (programs i) (q.done i) (q.rest i) := by
  have hinv := invariant (J := fun _ => True)
    (L := fun i t rest => Prog.Steps (programs i) t rest)
    (fun _ i t o k r _ _ hsteps _ => ⟨trivial, hsteps.trans (.step r (.refl _))⟩)
    (fun _ _ _ _ => trivial) trivial (fun i => .refl _) h
  exact hinv.2 i

/-- One reading of the answers fits the whole trace. -/
def Consistent {κ : Type} (A : κ → (o : Op) → Resp o → Prop) (t : List (Event Op Resp)) : Prop :=
  ∃ x, ∀ e ∈ t, A x e.op e.resp

/-- Assume and guarantee with a reading that is settled along the way: whichever reading
fits the answers a program has had, it meets its specification under that reading, and the
invariant promises that one goes on to fit. -/
theorem spec_consistent {κ : Type} [Nonempty κ] {J : σ → Prop}
    {A : κ → (o : Op) → Resp o → Prop} {G : Op → Prop} {Q : κ → ι → α → Prop}
    (hcell : ∀ s t o r s', J s → Consistent A t → G o → cell s t o r s' →
      Consistent A (t ++ [⟨o, r⟩]) ∧ J s')
    (henv : ∀ s s', J s → env s s' → J s') {shared : σ} {programs : ι → Prog Op Resp α}
    (hJ : J shared) (hprograms : ∀ x i, Prog.Spec (A x) G (programs i) (Q x i))
    {q : Pool Op Resp ι σ α} (h : Reaches cell env (start shared programs) q) :
    J q.shared ∧ ∀ i, Consistent A (q.done i) ∧ ∀ x, (∀ e ∈ q.done i, A x e.op e.resp) →
      ∀ a, q.rest i = .ret a → Q x i a := by
  obtain ⟨hshared, hlocal⟩ := invariant (J := J)
    (L := fun i t rest => Consistent A t ∧
      ∀ x, (∀ e ∈ t, A x e.op e.resp) → Prog.Spec (A x) G rest (Q x i))
    (fun s i t o k r s' hJ' hrest hc => by
      obtain ⟨⟨x, hx⟩, hspec⟩ := hrest
      obtain ⟨hconsistent, hJ''⟩ := hcell s t o r s' hJ' ⟨x, hx⟩ (hspec x hx).1 hc
      refine ⟨hJ'', hconsistent, ?_⟩
      intro y hy
      have hbefore := hspec y fun e he => hy e (List.mem_append_left _ he)
      exact hbefore.2 r (hy ⟨o, r⟩ (by simp)))
    henv hJ (fun i => ⟨⟨Classical.ofNonempty, by simp [start]⟩, fun x _ => hprograms x i⟩) h
  refine ⟨hshared, ?_⟩
  intro i
  refine ⟨(hlocal i).1, ?_⟩
  intro x hx a ha
  have hrest := (hlocal i).2 x hx
  rw [ha] at hrest
  exact hrest

/-- Assume and guarantee: the invariant promises the answers `A`, operations that meet `G`
keep it, and each program meets its specification under `A` and `G`. -/
theorem spec {J : σ → Prop} {A : (o : Op) → Resp o → Prop} {G : Op → Prop} {Q : ι → α → Prop}
    (hcell : ∀ s t o r s', J s → G o → cell s t o r s' → A o r ∧ J s')
    (henv : ∀ s s', J s → env s s' → J s') {shared : σ} {programs : ι → Prog Op Resp α}
    (hJ : J shared) (hprograms : ∀ i, Prog.Spec A G (programs i) (Q i))
    {q : Pool Op Resp ι σ α} (h : Reaches cell env (start shared programs) q) :
    J q.shared ∧ ∀ i, (∀ e ∈ q.done i, A e.op e.resp) ∧ ∀ a, q.rest i = .ret a → Q i a := by
  obtain ⟨hshared, hlocal⟩ := spec_consistent (A := fun (_ : Unit) => A)
    (Q := fun _ i => Q i) (fun s t o r s' hJ' hconsistent hG hc => by
      obtain ⟨x, hx⟩ := hconsistent
      obtain ⟨hA, hJ''⟩ := hcell s t o r s' hJ' hG hc
      refine ⟨⟨x, ?_⟩, hJ''⟩
      intro e he
      rcases List.mem_append.mp he with he | he
      · exact hx e he
      · rw [List.mem_singleton.mp he]
        exact hA)
    henv hJ (fun _ => hprograms) h
  refine ⟨hshared, ?_⟩
  intro i
  obtain ⟨⟨x, hx⟩, hreturns⟩ := hlocal i
  exact ⟨hx, hreturns x hx⟩

/-- What a program has done stays done. -/
theorem done_subset {p q : Pool Op Resp ι σ α} (h : Reaches cell env p q) (i : ι) :
    p.done i ⊆ q.done i := by
  induction h with
  | refl => exact List.Subset.refl _
  | tail _ hstep ih =>
      cases hstep with
      | call j r hnext hcell =>
          intro e he
          by_cases hi : i = j
          · subst hi
            simp [advance, ih he]
          · simpa [advance, hi] using ih he
      | outside henv => exact ih

/-- `invariant`, where a step may count on its event being on record in the end. -/
theorem invariant_recorded {J : σ → Prop}
    {L : ι → List (Event Op Resp) → Prog Op Resp α → Prop} {p q : Pool Op Resp ι σ α}
    (h : Reaches cell env p q)
    (hcall : ∀ s i t o k r s', (⟨o, r⟩ : Event Op Resp) ∈ q.done i → J s → L i t (.call o k) →
      cell s t o r s' → J s' ∧ L i (t ++ [⟨o, r⟩]) (k r))
    (henv : ∀ s s', J s → env s s' → J s') (hJ : J p.shared)
    (hL : ∀ i, L i (p.done i) (p.rest i)) :
    J q.shared ∧ ∀ i, L i (q.done i) (q.rest i) := by
  induction h using Relation.ReflTransGen.head_induction_on with
  | refl => exact ⟨hJ, hL⟩
  | head hstep hrest ih =>
      cases hstep with
      | @call i o k r shared hnext hcell =>
          have hi := hL i
          rw [hnext] at hi
          have hrecorded := done_subset hrest i (show (⟨o, r⟩ : Event Op Resp) ∈ _ by
            simp [advance])
          obtain ⟨hshared, hlocal⟩ := hcall _ _ _ _ _ _ _ hrecorded hJ hi hcell
          refine ih hshared ?_
          intro j
          by_cases hj : j = i
          · subst hj
            simpa [advance] using hlocal
          · simpa [advance, hj] using hL j
      | outside henv' => exact ih (henv _ _ hJ henv') hL

/-- Assume and guarantee where each program has assumptions and guarantees of its own, and
both may speak of what is on record in the end. -/
theorem spec_recorded {J : σ → Prop} {A : ι → (o : Op) → Resp o → Prop} {G : ι → Op → Prop}
    {Q : ι → α → Prop} {shared : σ} {programs : ι → Prog Op Resp α} {q : Pool Op Resp ι σ α}
    (h : Reaches cell env (start shared programs) q)
    (hcell : ∀ s t i o r s', (⟨o, r⟩ : Event Op Resp) ∈ q.done i → J s → G i o →
      cell s t o r s' → A i o r ∧ J s')
    (henv : ∀ s s', J s → env s s' → J s') (hJ : J shared)
    (hprograms : ∀ i, Prog.Spec (A i) (G i) (programs i) (Q i)) :
    J q.shared ∧ ∀ i, (∀ e ∈ q.done i, G i e.op) ∧ ∀ a, q.rest i = .ret a → Q i a := by
  obtain ⟨hshared, hlocal⟩ := invariant_recorded (J := J)
    (L := fun i t rest => (∀ e ∈ t, G i e.op) ∧ Prog.Spec (A i) (G i) rest (Q i)) h
    (fun s i t o k r s' hrecorded hJ' hrest hc => by
      obtain ⟨hdone, hasked, hnext⟩ := hrest
      obtain ⟨hA, hJ''⟩ := hcell s t i o r s' hrecorded hJ' hasked hc
      refine ⟨hJ'', ?_, hnext r hA⟩
      intro e he
      rcases List.mem_append.mp he with he | he
      · exact hdone e he
      · rw [List.mem_singleton.mp he]
        exact hasked)
    henv hJ (fun i => ⟨by simp [start], hprograms i⟩)
  refine ⟨hshared, fun i => ⟨(hlocal i).1, ?_⟩⟩
  intro a ha
  have hrest := (hlocal i).2
  rw [ha] at hrest
  exact hrest

/-- One operation of one program, with the shared state it found and the one it left. -/
structure Transition (Op : Type) (Resp : Op → Type) (ι σ : Type) where
  before : σ
  who : ι
  event : Event Op Resp
  after : σ

variable (cell env) in
/-- An interleaving with the operations on its way, in their order. -/
inductive Path : Pool Op Resp ι σ α → List (Transition Op Resp ι σ) → Pool Op Resp ι σ α → Prop
  | refl (p : Pool Op Resp ι σ α) : Path p [] p
  | call {p q : Pool Op Resp ι σ α} {steps : List (Transition Op Resp ι σ)} (i : ι) {o : Op}
      {k : Resp o → Prog Op Resp α} (r : Resp o) {shared : σ} (hnext : p.rest i = .call o k)
      (hcell : cell p.shared (p.done i) o r shared)
      (hrest : Path (p.advance i shared ⟨o, r⟩ (k r)) steps q) :
      Path p (⟨p.shared, i, ⟨o, r⟩, shared⟩ :: steps) q
  | outside {p q : Pool Op Resp ι σ α} {steps : List (Transition Op Resp ι σ)} {shared : σ}
      (henv : env p.shared shared) (hrest : Path { p with shared := shared } steps q) :
      Path p steps q

/-- Every reachable pool is at the end of a path. -/
theorem Reaches.path {p q : Pool Op Resp ι σ α} (h : Reaches cell env p q) :
    ∃ steps, Path cell env p steps q := by
  induction h using Relation.ReflTransGen.head_induction_on with
  | refl => exact ⟨[], .refl _⟩
  | head hstep _ ih =>
      obtain ⟨steps, hrest⟩ := ih
      cases hstep with
      | call i r hnext hcell => exact ⟨_, .call i r hnext hcell hrest⟩
      | outside henv => exact ⟨steps, .outside henv hrest⟩

/-- Along a path every operation is asked under the guarantee of its program, in a state that
meets the invariant. -/
theorem Path.transitions {J : σ → Prop} {A : (o : Op) → Resp o → Prop} {G : ι → Op → Prop}
    {Q : ι → α → Prop}
    (hcell : ∀ s t i o r s', J s → G i o → cell s t o r s' → A o r ∧ J s')
    (henv : ∀ s s', J s → env s s' → J s') {p q : Pool Op Resp ι σ α}
    {steps : List (Transition Op Resp ι σ)} (hJ : J p.shared)
    (hprograms : ∀ i, Prog.Spec A (G i) (p.rest i) (Q i)) (h : Path cell env p steps q) :
    ∀ step ∈ steps, J step.before ∧ G step.who step.event.op
      ∧ ∃ t, cell step.before t step.event.op step.event.resp step.after := by
  induction h with
  | refl p => simp
  | @call p q steps i o k r shared hnext hcell' hrest ih =>
      have hspec := hprograms i
      rw [hnext] at hspec
      obtain ⟨hA, hJ'⟩ := hcell _ _ i _ _ _ hJ hspec.1 hcell'
      have hlater := ih hJ' fun j => by
        by_cases hj : j = i
        · subst hj
          simpa [advance] using hspec.2 r hA
        · simpa [advance, hj] using hprograms j
      intro step hstep
      rcases List.mem_cons.mp hstep with rfl | hstep
      · exact ⟨hJ, hspec.1, _, hcell'⟩
      · exact hlater step hstep
  | outside henv' _ ih => exact ih (henv _ _ hJ henv') hprograms

/-- Run a program to its end, its operations answered by `handle`. -/
def drive (handle : σ → List (Event Op Resp) → (o : Op) → Resp o × σ) :
    Prog Op Resp α → List (Event Op Resp) → σ → List (Event Op Resp) × α × σ
  | .ret a, t, s => (t, a, s)
  | .call o k, t, s =>
      let (r, s') := handle s t o
      drive handle (k r) (t ++ [⟨o, r⟩]) s'

/-- The pool after program `i` has been run to its end. -/
def finish (handle : σ → List (Event Op Resp) → (o : Op) → Resp o × σ)
    (p : Pool Op Resp ι σ α) (i : ι) : Pool Op Resp ι σ α :=
  let out := drive handle (p.rest i) (p.done i) p.shared
  ⟨out.2.2, Function.update p.rest i (.ret out.2.1), Function.update p.done i out.1⟩

/-- Answers the shared state allows, the outside having moved it before, make a run. `I` is
what the shared state and the trace of the program keep to meanwhile. -/
theorem reaches_finish_of {handle : σ → List (Event Op Resp) → (o : Op) → Resp o × σ}
    {I : σ → List (Event Op Resp) → Prop}
    (hhandle : ∀ s t o, I s t → (∃ s₀, Relation.ReflTransGen env s s₀
        ∧ cell s₀ t o (handle s t o).1 (handle s t o).2)
      ∧ I (handle s t o).2 (t ++ [⟨o, (handle s t o).1⟩]))
    (p : Pool Op Resp ι σ α) (i : ι) (hI : I p.shared (p.done i)) :
    Reaches cell env p (p.finish handle i) := by
  have houtside : ∀ {p : Pool Op Resp ι σ α} {s : σ}, Relation.ReflTransGen env p.shared s →
      Reaches cell env p { p with shared := s } := by
    intro p s hs
    induction hs with
    | refl => exact .refl
    | tail _ hstep ih => exact ih.tail (.outside hstep)
  -- The induction is on what is left of the program.
  generalize hrest : p.rest i = rest
  induction rest generalizing p with
  | ret a =>
      have hsame : p.finish handle i = p := by
        rw [finish, hrest, drive, ← hrest]
        simp
      rw [hsame]
  | call o k ih =>
      obtain ⟨⟨s₀, hmoved, hcell⟩, hkept⟩ := hhandle p.shared (p.done i) o hI
      have hstep : Reaches cell env p
          (p.advance i (handle p.shared (p.done i) o).2 ⟨o, (handle p.shared (p.done i) o).1⟩
            (k (handle p.shared (p.done i) o).1)) :=
        (houtside hmoved).tail (.call i _ hrest hcell)
      refine hstep.trans ?_
      have hlater := ih (handle p.shared (p.done i) o).1
        (p.advance i (handle p.shared (p.done i) o).2 ⟨o, (handle p.shared (p.done i) o).1⟩
          (k (handle p.shared (p.done i) o).1)) (by simpa [advance] using hkept)
        (by simp [advance])
      have hsame : (p.advance i (handle p.shared (p.done i) o).2
          ⟨o, (handle p.shared (p.done i) o).1⟩
          (k (handle p.shared (p.done i) o).1)).finish handle i = p.finish handle i := by
        simp [finish, advance, hrest, drive]
      rwa [hsame] at hlater

theorem reaches_finish {handle : σ → List (Event Op Resp) → (o : Op) → Resp o × σ}
    (hhandle : ∀ s t o, ∃ s₀, Relation.ReflTransGen env s s₀
      ∧ cell s₀ t o (handle s t o).1 (handle s t o).2)
    (p : Pool Op Resp ι σ α) (i : ι) : Reaches cell env p (p.finish handle i) :=
  reaches_finish_of (I := fun _ _ => True) (fun s t o _ => ⟨hhandle s t o, trivial⟩) p i trivial

end Pool

end Interaction
