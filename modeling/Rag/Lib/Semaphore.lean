import Rag.Lib.Runs
import Mathlib.Data.List.Basic
import Mathlib.Data.List.Nodup
import Mathlib.Tactic.SplitIfs

/-!
A counting semaphore whose waiters stand in line, in the manner of `asyncio.Semaphore`.

The tasks of an event loop take turns, so what a task does between two suspensions is one
event. A waiting task is woken by a result on its future and goes on in a later event; a
cancelled one leaves the line in a later event too, and gives back the permit it may have been
handed meanwhile. An event that is not due changes nothing, so a run is any list of events.
-/

namespace Asyncio

variable {ι : Type}

/-- The future of a waiting task: without a result; with one, its task not gone on yet;
cancelled; with a result, its task cancelled since. -/
inductive Wait where
  | pending
  | woken
  | cancelled
  | doomed
deriving DecidableEq

/-- A permit has been set aside for the task. -/
def Wait.granted : Wait → Bool
  | .woken => true
  | .doomed => true
  | _ => false

def Wait.cancel : Wait → Wait
  | .pending => .cancelled
  | .woken => .doomed
  | wait => wait

@[simp] theorem Wait.granted_cancel (wait : Wait) : wait.cancel.granted = wait.granted := by
  cases wait <;> rfl

@[simp] theorem Wait.cancel_ne_pending (wait : Wait) : wait.cancel ≠ .pending := by
  cases wait <;> simp [Wait.cancel]

structure Waiter (ι : Type) where
  task : ι
  wait : Wait
deriving DecidableEq

/-- What cancelling task `i` makes of a waiter. -/
def Waiter.cancel [DecidableEq ι] (i : ι) (w : Waiter ι) : Waiter ι :=
  if w.task = i then { w with wait := w.wait.cancel } else w

section Cancel

variable [DecidableEq ι] (i : ι) (w : Waiter ι)

@[simp] theorem Waiter.task_cancel : (w.cancel i).task = w.task := by
  rw [Waiter.cancel]
  split_ifs <;> rfl

@[simp] theorem Waiter.granted_cancel : (w.cancel i).wait.granted = w.wait.granted := by
  rw [Waiter.cancel]
  split_ifs <;> simp

theorem Waiter.pending_of_cancel {w : Waiter ι} (h : (w.cancel i).wait = .pending) :
    w.task ≠ i ∧ w.wait = .pending := by
  rw [Waiter.cancel] at h
  split_ifs at h with hw
  · simp at h
  · exact ⟨hw, h⟩

end Cancel

structure Semaphore (ι : Type) where
  value : Nat
  waiters : List (Waiter ι) := []

/-- The line after a result is set on the first future without one, `none` when there is no
such future. -/
def wakeUpNext : List (Waiter ι) → Option (List (Waiter ι))
  | [] => none
  | w :: ws =>
      if w.wait = .pending then some ({ w with wait := .woken } :: ws)
      else (wakeUpNext ws).map (w :: ·)

/-- `while self._value > 0: if not self._wake_up_next(): break` -/
def wakeUpAll : Nat → List (Waiter ι) → Semaphore ι
  | 0, ws => ⟨0, ws⟩
  | n + 1, ws =>
      match wakeUpNext ws with
      | none => ⟨n + 1, ws⟩
      | some ws' => wakeUpAll n ws'

namespace Semaphore

def locked (s : Semaphore ι) : Bool :=
  s.value = 0 || s.waiters.any fun w => w.wait ≠ .cancelled

def release (s : Semaphore ι) : Semaphore ι :=
  match wakeUpNext s.waiters with
  | none => ⟨s.value + 1, s.waiters⟩
  | some ws => ⟨s.value, ws⟩

end Semaphore

inductive GateEvent (ι : Type) where
  | acquire (task : ι)
  | resume (task : ι)
  | cancel (task : ι)
  | unwind (task : ι)
  | release (task : ι)

def GateEvent.task : GateEvent ι → ι
  | .acquire i => i
  | .resume i => i
  | .cancel i => i
  | .unwind i => i
  | .release i => i

structure Gate (ι : Type) extends Semaphore ι where
  holders : List ι := []

namespace Gate

variable [DecidableEq ι]

/-- One turn of a task. -/
def step (g : Gate ι) : GateEvent ι → Gate ι
  | .acquire i =>
      if i ∈ g.holders ∨ i ∈ g.waiters.map Waiter.task then g
      else if g.locked then { g with waiters := g.waiters ++ [⟨i, .pending⟩] }
      else { g with value := g.value - 1, holders := g.holders ++ [i] }
  | .resume i =>
      if ⟨i, .woken⟩ ∈ g.waiters then
        ⟨wakeUpAll g.value (g.waiters.erase ⟨i, .woken⟩), g.holders ++ [i]⟩
      else g
  | .cancel i => { g with waiters := g.waiters.map (Waiter.cancel i) }
  | .unwind i =>
      if ⟨i, .cancelled⟩ ∈ g.waiters then
        ⟨wakeUpAll g.value (g.waiters.erase ⟨i, .cancelled⟩), g.holders⟩
      else if ⟨i, .doomed⟩ ∈ g.waiters then
        ⟨wakeUpAll (g.value + 1) (g.waiters.erase ⟨i, .doomed⟩), g.holders⟩
      else g
  | .release i =>
      if i ∈ g.holders then ⟨g.toSemaphore.release, g.holders.erase i⟩ else g

/-- The semaphore just made, with `permits` to hand out. -/
def start (permits : Nat) : Gate ι := { value := permits }

def Waiting (i : ι) (g : Gate ι) : Prop := ⟨i, .pending⟩ ∈ g.waiters

end Gate

def grants (ws : List (Waiter ι)) : Nat := ws.countP fun w => w.wait.granted

/-- No task without a permit stands before one with a permit. -/
def InOrder (ws : List (Waiter ι)) : Prop :=
  ws.Pairwise fun w w' => w.wait = .pending → w'.wait.granted = false

def AnyPending (ws : List (Waiter ι)) : Prop := ∃ w ∈ ws, w.wait = .pending

/-- The line `ws'` is `ws` after some futures at its front were given their result. -/
inductive Woken : Nat → List (Waiter ι) → List (Waiter ι) → Prop
  | none (ws : List (Waiter ι)) : Woken 0 ws ws
  | next {n : Nat} {before after ws : List (Waiter ι)} {i : ι}
      (hbefore : ∀ w ∈ before, w.wait ≠ .pending)
      (hrest : Woken n (before ++ ⟨i, .woken⟩ :: after) ws) :
      Woken (n + 1) (before ++ ⟨i, .pending⟩ :: after) ws

theorem wakeUpNext_eq_none {ws : List (Waiter ι)} (h : wakeUpNext ws = none) :
    ¬ AnyPending ws := by
  induction ws with
  | nil =>
      rintro ⟨w, hw, -⟩
      simp at hw
  | cons w ws ih =>
      rw [wakeUpNext] at h
      split_ifs at h with hw
      simp only [Option.map_eq_none_iff] at h
      rintro ⟨x, hx, hpending⟩
      rcases List.mem_cons.mp hx with rfl | hx
      · exact hw hpending
      · exact ih h ⟨x, hx, hpending⟩

theorem wakeUpNext_eq_some {ws ws' : List (Waiter ι)} (h : wakeUpNext ws = some ws') :
    ∃ before i after, (∀ w ∈ before, w.wait ≠ .pending) ∧ ws = before ++ ⟨i, .pending⟩ :: after
      ∧ ws' = before ++ ⟨i, .woken⟩ :: after := by
  induction ws generalizing ws' with
  | nil => simp [wakeUpNext] at h
  | cons w ws ih =>
      obtain ⟨i, wait⟩ := w
      rw [wakeUpNext] at h
      split_ifs at h with hw
      · cases hw
        cases h
        exact ⟨[], i, ws, by simp, rfl, rfl⟩
      · obtain ⟨rest, hrest, rfl⟩ := Option.map_eq_some_iff.mp h
        obtain ⟨before, j, after, hbefore, rfl, rfl⟩ := ih hrest
        refine ⟨⟨i, wait⟩ :: before, j, after, ?_, rfl, rfl⟩
        intro x hx
        rcases List.mem_cons.mp hx with rfl | hx
        · exact hw
        · exact hbefore x hx

theorem wakeUpNext_woken {ws ws' : List (Waiter ι)} (h : wakeUpNext ws = some ws') :
    Woken 1 ws ws' := by
  obtain ⟨before, i, after, hbefore, rfl, rfl⟩ := wakeUpNext_eq_some h
  exact .next hbefore (.none _)

/-- The loop stops when the permits or the waiting tasks have run out. -/
theorem wakeUpAll_spec (n : Nat) (ws : List (Waiter ι)) :
    ∃ m, m + (wakeUpAll n ws).value = n ∧ Woken m ws (wakeUpAll n ws).waiters
      ∧ (0 < (wakeUpAll n ws).value → ¬ AnyPending (wakeUpAll n ws).waiters) := by
  induction n generalizing ws with
  | zero => exact ⟨0, rfl, .none ws, by simp [wakeUpAll]⟩
  | succ n ih =>
      rw [wakeUpAll]
      split
      · next hnone => exact ⟨0, by simp, .none ws, fun _ => wakeUpNext_eq_none hnone⟩
      · next ws' hsome =>
          obtain ⟨before, i, after, hbefore, rfl, rfl⟩ := wakeUpNext_eq_some hsome
          obtain ⟨m, hm, hwoken, hdone⟩ := ih (before ++ ⟨i, .woken⟩ :: after)
          exact ⟨m + 1, by omega, .next hbefore hwoken, hdone⟩

namespace Woken

variable {n : Nat} {ws ws' : List (Waiter ι)}

theorem tasks (h : Woken n ws ws') : ws'.map Waiter.task = ws.map Waiter.task := by
  induction h with
  | none => rfl
  | next _ _ ih => simpa using ih

theorem grants_eq (h : Woken n ws ws') : grants ws' = grants ws + n := by
  induction h with
  | none => rfl
  | next _ _ ih =>
      rw [ih]
      simp [grants, Wait.granted]
      omega

/-- The tasks before the one that is woken are not pending, so the line stays in order. -/
theorem inOrder (h : Woken n ws ws') (hws : InOrder ws) : InOrder ws' := by
  induction h with
  | none => exact hws
  | @next n before after ws i hbefore _ ih =>
      apply ih
      rw [InOrder, List.pairwise_append, List.pairwise_cons] at hws ⊢
      obtain ⟨hfirst, ⟨-, hafter⟩, hacross⟩ := hws
      refine ⟨hfirst, ⟨by simp, hafter⟩, ?_⟩
      intro w hw w' _ hpending
      exact absurd hpending (hbefore w hw)

theorem pending_of (h : Woken n ws ws') {i : ι} (hi : ⟨i, .pending⟩ ∈ ws') :
    ⟨i, .pending⟩ ∈ ws := by
  induction h with
  | none => exact hi
  | next _ _ ih =>
      have hmem := ih hi
      simp only [List.mem_append, List.mem_cons, Waiter.mk.injEq, reduceCtorEq, and_false,
        false_or] at hmem ⊢
      tauto

end Woken

section Places

variable [DecidableEq ι]

/-- The tasks in front of `i`. -/
def ahead (i : ι) : List (Waiter ι) → List ι
  | [] => []
  | w :: ws => if w.task = i then [] else w.task :: ahead i ws

/-- How many of them are pending. -/
def pendingAhead (i : ι) : List (Waiter ι) → Nat
  | [] => 0
  | w :: ws =>
      if w.task = i then 0 else pendingAhead i ws + if w.wait = .pending then 1 else 0

variable {i j : ι} {ws ws' : List (Waiter ι)}

theorem ahead_congr (h : ws'.map Waiter.task = ws.map Waiter.task) : ahead i ws' = ahead i ws := by
  induction ws generalizing ws' with
  | nil =>
      rw [List.map_nil, List.map_eq_nil_iff] at h
      rw [h]
  | cons w ws ih =>
      cases ws' with
      | nil => simp at h
      | cons w' ws' =>
          simp only [List.map_cons, List.cons.injEq] at h
          rw [ahead, ahead, h.1, ih h.2]

theorem ahead_append (h : i ∈ ws.map Waiter.task) (w : Waiter ι) :
    ahead i (ws ++ [w]) = ahead i ws ∧ pendingAhead i (ws ++ [w]) = pendingAhead i ws := by
  induction ws with
  | nil => simp at h
  | cons x ws ih =>
      by_cases hx : x.task = i
      · simp [ahead, pendingAhead, hx]
      · have hmem : i ∈ ws.map Waiter.task := by
          simpa [List.map_cons, List.mem_cons, Ne.symm hx] using h
        obtain ⟨hahead, hpending⟩ := ih hmem
        simp [ahead, pendingAhead, hx, hahead, hpending]

theorem ahead_erase {w : Waiter ι} (hw : w.task ≠ i) (hwait : w.wait ≠ .pending) :
    ahead i (ws.erase w) ⊆ ahead i ws ∧ pendingAhead i (ws.erase w) = pendingAhead i ws := by
  induction ws with
  | nil => simp [ahead]
  | cons x ws ih =>
      obtain ⟨hahead, hpending⟩ := ih
      by_cases hx : x = w
      · subst hx
        simp [ahead, pendingAhead, hw, hwait]
      · rw [List.erase_cons_tail (by simpa using hx)]
        by_cases hi : x.task = i
        · simp [ahead, pendingAhead, hi]
        · simp only [ahead, pendingAhead, if_neg hi, hpending, and_true]
          exact List.cons_subset_cons _ hahead

/-- Whom the line has granted a permit stands in front of everyone pending. -/
theorem mem_ahead (horder : InOrder ws) (hnodup : (ws.map Waiter.task).Nodup)
    (hi : ⟨i, .pending⟩ ∈ ws) {w : Waiter ι} (hw : w ∈ ws) (hgranted : w.wait.granted = true) :
    w.task ∈ ahead i ws := by
  induction ws with
  | nil => simp at hi
  | cons x ws ih =>
      rw [InOrder, List.pairwise_cons] at horder
      rw [List.map_cons, List.nodup_cons] at hnodup
      by_cases hx : x.task = i
      · -- The first one is `i`, still pending: nobody behind has a permit.
        have hfirst : x = ⟨i, .pending⟩ := by
          rcases List.mem_cons.mp hi with rfl | hi
          · rfl
          · exact absurd (List.mem_map_of_mem hi) (hx ▸ hnodup.1)
        subst hfirst
        rcases List.mem_cons.mp hw with rfl | hw
        · simp [Wait.granted] at hgranted
        · simp [horder.1 w hw rfl] at hgranted
      · rw [ahead, if_neg hx]
        have hbehind : ⟨i, .pending⟩ ∈ ws := by
          rcases List.mem_cons.mp hi with rfl | hi
          · exact absurd rfl hx
          · exact hi
        rcases List.mem_cons.mp hw with rfl | hw
        · exact List.mem_cons_self
        · exact List.mem_cons_of_mem _ (ih horder.2 hnodup.2 hbehind hw)

theorem pendingAhead_append (h : i ∉ ws.map Waiter.task) (ws' : List (Waiter ι)) :
    pendingAhead i (ws ++ ws')
      = (ws.countP fun w => w.wait = .pending) + pendingAhead i ws' := by
  induction ws with
  | nil => simp
  | cons w ws ih =>
      simp only [List.map_cons, List.mem_cons, not_or] at h
      rw [List.cons_append, pendingAhead, if_neg (Ne.symm h.1), ih h.2, List.countP_cons]
      simp only [decide_eq_true_eq]
      omega

/-- Everyone woken while `i` stays pending was in front of it. -/
theorem Woken.pendingAhead_eq {n : Nat} (h : Woken n ws ws')
    (hnodup : (ws.map Waiter.task).Nodup) (hi : ⟨i, .pending⟩ ∈ ws') :
    pendingAhead i ws' + n = pendingAhead i ws := by
  induction h with
  | none => rfl
  | @next n before after ws' k hbefore hrest ih =>
      have hsame : (before ++ ⟨k, .woken⟩ :: after).map Waiter.task
          = (before ++ ⟨k, .pending⟩ :: after).map Waiter.task := by simp
      have hlater := ih (hsame ▸ hnodup) hi
      have hmem := hrest.pending_of hi
      have hafter : ⟨i, .pending⟩ ∈ after := by
        rcases List.mem_append.mp hmem with hmem | hmem
        · exact absurd rfl (hbefore _ hmem)
        · simpa using hmem
      rw [List.map_append, List.map_cons, List.nodup_append, List.nodup_cons] at hnodup
      obtain ⟨-, ⟨hk, -⟩, hapart⟩ := hnodup
      have htask : i ∈ after.map Waiter.task := List.mem_map_of_mem hafter
      have hfront : i ∉ before.map Waiter.task :=
        fun hin => hapart i hin i (List.mem_cons_of_mem _ htask) rfl
      have hki : k ≠ i := fun heq => hk (heq ▸ htask)
      rw [pendingAhead_append hfront] at hlater ⊢
      simp only [pendingAhead, if_neg hki] at hlater ⊢
      simp at hlater ⊢
      omega

theorem pendingAhead_cancel : pendingAhead i (ws.map (Waiter.cancel j)) ≤ pendingAhead i ws := by
  induction ws with
  | nil => simp [pendingAhead]
  | cons w ws ih =>
      rw [List.map_cons, pendingAhead, pendingAhead, Waiter.task_cancel]
      by_cases hpending : (w.cancel j).wait = .pending
      · simp only [hpending, (Waiter.pending_of_cancel j hpending).2, if_true]
        split_ifs <;> omega
      · simp only [if_neg hpending]
        split_ifs <;> omega

end Places

namespace Gate

/-- Every permit is free, granted to someone in line or held; the line is in order; and a free
permit with someone pending means that someone granted is yet to go on, who will pass it on. -/
structure Fair (permits : Nat) (g : Gate ι) : Prop where
  balance : g.value + grants g.waiters + g.holders.length = permits
  order : InOrder g.waiters
  busy : 0 < g.value → AnyPending g.waiters → ∃ w ∈ g.waiters, w.wait.granted = true
  line : (g.waiters.map Waiter.task).Nodup
  inside : g.holders.Nodup
  apart : ∀ i ∈ g.holders, i ∉ g.waiters.map Waiter.task

theorem fair_start (permits : Nat) : (start permits : Gate ι).Fair permits where
  balance := by simp [start, grants]
  order := by simp [start, InOrder]
  busy := by simp [start, AnyPending]
  line := by simp [start]
  inside := by simp [start]
  apart := by simp [start]

variable {permits : Nat} {g : Gate ι}

theorem Fair.holders_le (h : g.Fair permits) : g.holders.length ≤ permits := by
  have hbalance := h.balance
  omega

/-- Someone waits for a permit only while all are taken: by holders, or by tasks that have been
granted one and are about to go on. -/
theorem Fair.taken (h : g.Fair permits) (hidle : ∀ w ∈ g.waiters, w.wait.granted = false)
    (hpending : AnyPending g.waiters) : g.holders.length = permits := by
  have hbalance := h.balance
  have hgrants : grants g.waiters = 0 := by
    rw [grants, List.countP_eq_zero]
    intro w hw
    simp [hidle w hw]
  have hvalue : g.value = 0 := by
    by_contra hfree
    obtain ⟨w, hw, hgranted⟩ := h.busy (by omega) hpending
    simp [hidle w hw] at hgranted
  omega

theorem unlocked (hlocked : g.locked = false) :
    0 < g.value ∧ ∀ w ∈ g.waiters, w.wait = .cancelled := by
  simp only [Semaphore.locked, Bool.or_eq_false_iff, decide_eq_false_iff_not, List.any_eq_false,
    decide_eq_true_eq, not_not] at hlocked
  exact ⟨by omega, hlocked.2⟩

variable [DecidableEq ι]

theorem grants_erase {w : Waiter ι} {ws : List (Waiter ι)} (hw : w ∈ ws) :
    grants (ws.erase w) + (if w.wait.granted then 1 else 0) = grants ws := by
  have hperm := (List.perm_cons_erase hw).countP_eq fun w => w.wait.granted
  rw [List.countP_cons] at hperm
  rw [grants, grants, hperm]

/-- Someone leaves the line with the permit it was granted, and the rest is woken as far as the
free permits go. -/
theorem Fair.leave (h : g.Fair permits) (w : Waiter ι) (n : Nat) (holders : List ι)
    (hn : n + grants (g.waiters.erase w) + holders.length = permits)
    (hinside : holders.Nodup) (hapart : ∀ i ∈ holders, i ∉ (g.waiters.erase w).map Waiter.task) :
    (⟨wakeUpAll n (g.waiters.erase w), holders⟩ : Gate ι).Fair permits := by
  obtain ⟨m, hm, hwoken, hdone⟩ := wakeUpAll_spec n (g.waiters.erase w)
  have hsub : (g.waiters.erase w).Sublist g.waiters := List.erase_sublist
  refine ⟨?_, ?_, ?_, ?_, hinside, ?_⟩
  · have hgrants := hwoken.grants_eq
    show (wakeUpAll n _).value + grants (wakeUpAll n _).waiters + holders.length = permits
    omega
  · exact hwoken.inOrder (List.Pairwise.sublist hsub h.order)
  · intro hvalue hpending
    exact absurd hpending (hdone hvalue)
  · show ((wakeUpAll n _).waiters.map Waiter.task).Nodup
    rw [hwoken.tasks]
    exact h.line.sublist (hsub.map _)
  · show ∀ i ∈ holders, i ∉ (wakeUpAll n _).waiters.map Waiter.task
    rw [hwoken.tasks]
    exact hapart

theorem Fair.acquire (h : g.Fair permits) (i : ι) : (g.step (.acquire i)).Fair permits := by
  rw [step]
  split_ifs with hknown hlocked
  · exact h
  · -- The task stands at the end of the line.
    simp only [not_or] at hknown
    refine ⟨?_, ?_, ?_, ?_, h.inside, ?_⟩
    · have hgrants : grants (g.waiters ++ [⟨i, .pending⟩]) = grants g.waiters := by
        simp [grants, Wait.granted]
      have hbalance := h.balance
      show g.value + grants (g.waiters ++ [⟨i, .pending⟩]) + g.holders.length = permits
      omega
    · show InOrder (g.waiters ++ [⟨i, .pending⟩])
      rw [InOrder, List.pairwise_append]
      refine ⟨h.order, by simp, ?_⟩
      intro w _ w' hw' _
      rw [List.mem_singleton.mp hw']
      rfl
    · intro hvalue _
      have hothers : ∃ w ∈ g.waiters, w.wait ≠ .cancelled := by
        have hvalue' : 0 < g.value := hvalue
        simpa [Semaphore.locked, Nat.pos_iff_ne_zero.mp hvalue'] using hlocked
      obtain ⟨w, hw, hwait⟩ := hothers
      have hgranted : ∃ w ∈ g.waiters, w.wait.granted = true := by
        by_cases hpending : w.wait = .pending
        · exact h.busy hvalue ⟨w, hw, hpending⟩
        · refine ⟨w, hw, ?_⟩
          cases hkind : w.wait <;> simp_all [Wait.granted]
      obtain ⟨w', hw', hgranted⟩ := hgranted
      exact ⟨w', List.mem_append_left _ hw', hgranted⟩
    · show ((g.waiters ++ [(⟨i, .pending⟩ : Waiter ι)]).map Waiter.task).Nodup
      rw [List.map_append, List.nodup_append]
      refine ⟨h.line, by simp, ?_⟩
      intro j hj k hk
      have hki : k = i := by simpa using hk
      rintro rfl
      exact hknown.2 (hki ▸ hj)
    · show ∀ j ∈ g.holders, j ∉ (g.waiters ++ [(⟨i, .pending⟩ : Waiter ι)]).map Waiter.task
      intro j hj
      rw [List.map_append, List.mem_append, not_or]
      refine ⟨h.apart j hj, ?_⟩
      intro hin
      have hji : j = i := by simpa using hin
      exact hknown.1 (hji ▸ hj)
  · -- A permit is free and nobody stands in line for it.
    simp only [not_or] at hknown
    obtain ⟨hvalue, hcancelled⟩ := unlocked (by simpa using hlocked)
    refine ⟨?_, h.order, ?_, h.line, ?_, ?_⟩
    · have hbalance := h.balance
      show g.value - 1 + grants g.waiters + (g.holders ++ [i]).length = permits
      rw [List.length_append, List.length_singleton]
      omega
    · rintro - ⟨w, hw, hpending⟩
      have hw' : w ∈ g.waiters := hw
      simp [hcancelled w hw'] at hpending
    · show (g.holders ++ [i]).Nodup
      rw [List.nodup_append]
      refine ⟨h.inside, by simp, ?_⟩
      intro j hj k hk
      rw [List.mem_singleton] at hk
      rintro rfl
      exact hknown.1 (hk ▸ hj)
    · intro j hj
      have hj' : j ∈ g.holders ++ [i] := hj
      rcases List.mem_append.mp hj' with hj' | hj'
      · exact h.apart j hj'
      · rw [List.mem_singleton.mp hj']
        exact hknown.2

theorem Fair.resume (h : g.Fair permits) (i : ι) : (g.step (.resume i)).Fair permits := by
  rw [step]
  split_ifs with hwoken
  · have hgrants := grants_erase hwoken
    simp only [Wait.granted, if_true] at hgrants
    have hline : i ∈ g.waiters.map Waiter.task := List.mem_map_of_mem hwoken
    have hbalance := h.balance
    have hout : i ∉ (g.waiters.erase ⟨i, .woken⟩).map Waiter.task := by
      have hperm := (List.perm_cons_erase hwoken).map Waiter.task
      have hnodup := hperm.nodup_iff.mp h.line
      rw [List.map_cons, List.nodup_cons] at hnodup
      exact hnodup.1
    apply h.leave
    · rw [List.length_append, List.length_singleton]
      omega
    · rw [List.nodup_append]
      refine ⟨h.inside, by simp, ?_⟩
      intro j hj k hk
      rw [List.mem_singleton] at hk
      rintro rfl
      exact h.apart j hj (hk ▸ hline)
    · intro j hj
      rcases List.mem_append.mp hj with hj | hj
      · intro hin
        exact h.apart j hj ((List.erase_sublist.map _).subset hin)
      · rw [List.mem_singleton.mp hj]
        exact hout
  · exact h

theorem Fair.cancel (h : g.Fair permits) (i : ι) : (g.step (.cancel i)).Fair permits := by
  have htasks : (g.waiters.map (Waiter.cancel i)).map Waiter.task = g.waiters.map Waiter.task := by
    simp [Function.comp_def]
  refine ⟨?_, ?_, ?_, ?_, h.inside, ?_⟩
  · have hgrants : grants (g.waiters.map (Waiter.cancel i)) = grants g.waiters := by
      simp [grants, List.countP_map, Function.comp_def]
    have hbalance := h.balance
    simpa [step, hgrants] using hbalance
  · show InOrder (g.waiters.map (Waiter.cancel i))
    rw [InOrder, List.pairwise_map]
    apply h.order.imp
    intro w w' hww' hpending
    rw [Waiter.granted_cancel]
    exact hww' (Waiter.pending_of_cancel i hpending).2
  · rintro hvalue ⟨w, hw, hpending⟩
    obtain ⟨w₀, hw₀, rfl⟩ := List.mem_map.mp hw
    obtain ⟨v, hv, hgranted⟩ :=
      h.busy hvalue ⟨w₀, hw₀, (Waiter.pending_of_cancel i hpending).2⟩
    exact ⟨v.cancel i, List.mem_map_of_mem hv, by simpa using hgranted⟩
  · simpa [step, htasks] using h.line
  · intro j hj
    simpa [step, htasks] using h.apart j hj

theorem Fair.unwind (h : g.Fair permits) (i : ι) : (g.step (.unwind i)).Fair permits := by
  have hbalance := h.balance
  have hapart : ∀ w : Waiter ι, ∀ j ∈ g.holders, j ∉ (g.waiters.erase w).map Waiter.task :=
    fun w j hj hin => h.apart j hj ((List.erase_sublist.map _).subset hin)
  rw [step]
  split_ifs with hcancelled hdoomed
  · have hgrants := grants_erase hcancelled
    simp only [Wait.granted, Bool.false_eq_true, if_false] at hgrants
    exact h.leave _ _ _ (by omega) h.inside (hapart _)
  · have hgrants := grants_erase hdoomed
    simp only [Wait.granted, if_true] at hgrants
    exact h.leave _ _ _ (by omega) h.inside (hapart _)
  · exact h

theorem Fair.release (h : g.Fair permits) (i : ι) : (g.step (.release i)).Fair permits := by
  rw [step]
  split_ifs with hinside
  · have hbalance := h.balance
    have hlength := List.length_erase_of_mem hinside
    have hpos := List.length_pos_of_mem hinside
    have happart : ∀ j ∈ g.holders.erase i, j ∉ g.waiters.map Waiter.task :=
      fun j hj => h.apart j (List.erase_sublist.subset hj)
    rw [Semaphore.release]
    cases hwake : wakeUpNext g.waiters with
    | none =>
        refine ⟨?_, h.order, ?_, h.line, h.inside.erase i, happart⟩
        · show g.value + 1 + grants g.waiters + (g.holders.erase i).length = permits
          omega
        · intro _ hpending
          exact absurd hpending (wakeUpNext_eq_none hwake)
    | some ws =>
        have hwoken := wakeUpNext_woken hwake
        have hgrants := hwoken.grants_eq
        refine ⟨?_, hwoken.inOrder h.order, ?_, ?_, h.inside.erase i, ?_⟩
        · show g.value + grants ws + (g.holders.erase i).length = permits
          omega
        · intro _ _
          have hpos : 0 < grants ws := by omega
          obtain ⟨w, hw, hgranted⟩ := List.countP_pos_iff.mp hpos
          exact ⟨w, hw, hgranted⟩
        · show (ws.map Waiter.task).Nodup
          rw [hwoken.tasks]
          exact h.line
        · show ∀ j ∈ g.holders.erase i, j ∉ ws.map Waiter.task
          rw [hwoken.tasks]
          exact happart
  · exact h

theorem Fair.step (h : g.Fair permits) (e : GateEvent ι) : (g.step e).Fair permits := by
  cases e with
  | acquire i => exact h.acquire i
  | resume i => exact h.resume i
  | cancel i => exact h.cancel i
  | unwind i => exact h.unwind i
  | release i => exact h.release i

/-- Whatever the tasks do, in whatever order. -/
theorem Fair.run (h : g.Fair permits) (es : List (GateEvent ι)) :
    (es.foldl Gate.step g).Fair permits := by
  induction es generalizing g with
  | nil => exact h
  | cons e es ih => exact ih (h.step e)

/-- Of the holders an event only concerns its own task: the others can be left out of sight. -/
theorem step_filter (g : Gate ι) (p : ι → Bool) (e : GateEvent ι) (he : p e.task = true) :
    (⟨g.toSemaphore, g.holders.filter p⟩ : Gate ι).step e
      = ⟨(g.step e).toSemaphore, (g.step e).holders.filter p⟩ := by
  have hmem : e.task ∈ g.holders.filter p ↔ e.task ∈ g.holders := by
    simp [he]
  cases e with
  | acquire i =>
      simp only [GateEvent.task] at he hmem
      simp only [Gate.step, hmem]
      split_ifs <;> simp [he]
  | resume i =>
      simp only [GateEvent.task] at he
      simp only [Gate.step]
      split_ifs <;> simp [he]
  | cancel i => rfl
  | unwind i =>
      simp only [Gate.step]
      split_ifs <;> rfl
  | release i =>
      simp only [GateEvent.task] at he hmem
      simp only [Gate.step, hmem, List.erase_filter]
      split_ifs <;> rfl

theorem filter_step (g : Gate ι) (p : ι → Bool) (e : GateEvent ι) (he : p e.task = false) :
    (g.step e).holders.filter p = g.holders.filter p := by
  cases e with
  | acquire i =>
      simp only [GateEvent.task] at he
      simp only [Gate.step]
      split_ifs <;> simp [he]
  | resume i =>
      simp only [GateEvent.task] at he
      simp only [Gate.step]
      split_ifs <;> simp [he]
  | cancel i => rfl
  | unwind i =>
      simp only [Gate.step]
      split_ifs <;> rfl
  | release i =>
      simp only [GateEvent.task] at he
      simp only [Gate.step]
      split_ifs
      · rw [← List.erase_filter, List.erase_of_not_mem]
        simp [he]
      · rfl

/-- The tasks that get inside at an event. -/
def entered (g : Gate ι) (e : GateEvent ι) : List ι :=
  (g.step e).holders.filter fun i => i ∉ g.holders

/-- The permits given back at an event. -/
def freed (g : Gate ι) : GateEvent ι → Nat
  | .release i => if i ∈ g.holders then 1 else 0
  | .unwind i =>
      if ⟨i, .cancelled⟩ ∈ g.waiters then 0 else if ⟨i, .doomed⟩ ∈ g.waiters then 1 else 0
  | _ => 0

/-- The tasks that get inside along a run, in their order. -/
def entries : Gate ι → List (GateEvent ι) → List ι
  | _, [] => []
  | g, e :: es => g.entered e ++ entries (g.step e) es

/-- The permits given back along a run. -/
def freedBy : Gate ι → List (GateEvent ι) → Nat
  | _, [] => 0
  | g, e :: es => g.freed e + freedBy (g.step e) es

/-- What an event does to the place of a task that waits before and after it. -/
structure Holds (i : ι) (g : Gate ι) (e : GateEvent ι) : Prop where
  entered : ∀ j ∈ g.entered e, j ∈ ahead i g.waiters
  ahead : ahead i (g.step e).waiters ⊆ ahead i g.waiters
  pending : pendingAhead i (g.step e).waiters + g.freed e ≤ pendingAhead i g.waiters

variable {i : ι}

omit [DecidableEq ι] in
theorem Waiting.locked (h : g.Waiting i) : g.locked = true := by
  have hany : g.waiters.any (fun w => w.wait ≠ .cancelled) = true := by
    rw [List.any_eq_true]
    exact ⟨_, h, by simp⟩
  rw [Semaphore.locked, hany, Bool.or_true]

/-- Someone leaves the line and `n` permits are handed on: all of them go to tasks in front
of `i`, since `i` is left out. -/
theorem Fair.passed_on (h : g.Fair permits) {w : Waiter ι} (hwait : w.wait ≠ .pending)
    (hw : w.task ≠ i) (n : Nat) (hi : ⟨i, .pending⟩ ∈ (wakeUpAll n (g.waiters.erase w)).waiters) :
    ahead i (wakeUpAll n (g.waiters.erase w)).waiters ⊆ ahead i g.waiters
      ∧ pendingAhead i (wakeUpAll n (g.waiters.erase w)).waiters + n
        = pendingAhead i g.waiters := by
  obtain ⟨m, hm, hwoken, hdone⟩ := wakeUpAll_spec n (g.waiters.erase w)
  have herased : ahead i (g.waiters.erase w) ⊆ ahead i g.waiters
      ∧ pendingAhead i (g.waiters.erase w) = pendingAhead i g.waiters := ahead_erase hw hwait
  obtain ⟨hahead, hpending⟩ := herased
  have hnodup : ((g.waiters.erase w).map Waiter.task).Nodup :=
    h.line.sublist (List.erase_sublist.map _)
  have hplace := hwoken.pendingAhead_eq hnodup hi
  have hspent : ¬ 0 < (wakeUpAll n (g.waiters.erase w)).value :=
    fun hfree => hdone hfree ⟨_, hi, rfl⟩
  rw [ahead_congr hwoken.tasks]
  exact ⟨hahead, by omega⟩

omit [DecidableEq ι] in
theorem Fair.task_ne (h : g.Fair permits) (hi : g.Waiting i) {w : Waiter ι} (hw : w ∈ g.waiters)
    (hwait : w.wait ≠ .pending) : w.task ≠ i := by
  intro htask
  have hsame := List.inj_on_of_nodup_map h.line hw hi htask
  rw [hsame] at hwait
  exact hwait rfl

theorem entered_of_holders_eq {e : GateEvent ι} (h : (g.step e).holders ⊆ g.holders) :
    g.entered e = [] := by
  rw [entered, List.filter_eq_nil_iff]
  intro j hj
  simp [h hj]

theorem holds_of_idle {e : GateEvent ι} (h : g.step e = g) (hfreed : g.freed e = 0) :
    Holds i g e where
  entered := by
    rw [entered_of_holders_eq (by rw [h]; exact List.Subset.refl _)]
    simp
  ahead := by
    rw [h]
    exact List.Subset.refl _
  pending := by
    rw [h]
    omega

theorem Waiting.holds_acquire (hi : g.Waiting i) (j : ι) : Holds i g (.acquire j) := by
  have hline : i ∈ g.waiters.map Waiter.task := List.mem_map_of_mem hi
  by_cases hknown : j ∈ g.holders ∨ j ∈ g.waiters.map Waiter.task
  · apply holds_of_idle
    · rw [Gate.step, if_pos hknown]
    · rfl
  · have hstep : g.step (.acquire j)
        = { g with waiters := g.waiters ++ [⟨j, .pending⟩] } := by
      rw [Gate.step, if_neg hknown, if_pos hi.locked]
    obtain ⟨hahead, hpending⟩ := ahead_append hline ⟨j, .pending⟩
    refine ⟨?_, ?_, ?_⟩
    · rw [entered_of_holders_eq (by rw [hstep]; exact List.Subset.refl _)]
      simp
    · rw [hstep]
      show Asyncio.ahead i (g.waiters ++ [⟨j, .pending⟩]) ⊆ _
      rw [hahead]
      exact List.Subset.refl _
    · rw [hstep]
      show pendingAhead i (g.waiters ++ [⟨j, .pending⟩]) + 0 ≤ _
      omega

theorem Fair.holds_resume (h : g.Fair permits) (hi : g.Waiting i) (j : ι)
    (hi' : (g.step (.resume j)).Waiting i) : Holds i g (.resume j) := by
  by_cases hwoken : ⟨j, .woken⟩ ∈ g.waiters
  · have hstep : g.step (.resume j)
        = ⟨wakeUpAll g.value (g.waiters.erase ⟨j, .woken⟩), g.holders ++ [j]⟩ := by
      rw [Gate.step, if_pos hwoken]
    have hj := h.task_ne hi hwoken (by simp)
    rw [Waiting, hstep] at hi'
    obtain ⟨hahead, hpending⟩ := h.passed_on (by simp) hj g.value hi'
    refine ⟨?_, ?_, ?_⟩
    · intro k hk
      rw [Gate.entered, hstep] at hk
      have hk' : k = j := by
        simp only [List.filter_append, List.mem_append, List.mem_filter] at hk
        simp_all
      rw [hk']
      exact mem_ahead h.order h.line hi hwoken rfl
    · rw [hstep]
      exact hahead
    · rw [hstep]
      show pendingAhead i (wakeUpAll _ _).waiters + 0 ≤ _
      omega
  · apply holds_of_idle
    · rw [Gate.step, if_neg hwoken]
    · rfl

theorem holds_cancel (j : ι) : Holds i g (.cancel j) where
  entered := by
    rw [entered_of_holders_eq (List.Subset.refl _)]
    simp
  ahead := by
    have htasks : (g.step (.cancel j)).waiters.map Waiter.task = g.waiters.map Waiter.task := by
      simp [Gate.step, Function.comp_def]
    rw [ahead_congr htasks]
    exact List.Subset.refl _
  pending := pendingAhead_cancel

theorem Fair.holds_unwind (h : g.Fair permits) (hi : g.Waiting i) (j : ι)
    (hi' : (g.step (.unwind j)).Waiting i) : Holds i g (.unwind j) := by
  have hout : g.entered (.unwind j) = [] := by
    apply entered_of_holders_eq
    rw [Gate.step]
    split_ifs <;> exact List.Subset.refl _
  by_cases hcancelled : ⟨j, .cancelled⟩ ∈ g.waiters
  · have hstep : g.step (.unwind j)
        = ⟨wakeUpAll g.value (g.waiters.erase ⟨j, .cancelled⟩), g.holders⟩ := by
      rw [Gate.step, if_pos hcancelled]
    have hj := h.task_ne hi hcancelled (by simp)
    rw [Waiting, hstep] at hi'
    obtain ⟨hahead, hpending⟩ := h.passed_on (by simp) hj g.value hi'
    refine ⟨by simp [hout], ?_, ?_⟩
    · rw [hstep]
      exact hahead
    · rw [hstep, freed, if_pos hcancelled]
      show pendingAhead i (wakeUpAll _ _).waiters + 0 ≤ _
      omega
  by_cases hdoomed : ⟨j, .doomed⟩ ∈ g.waiters
  · have hstep : g.step (.unwind j)
        = ⟨wakeUpAll (g.value + 1) (g.waiters.erase ⟨j, .doomed⟩), g.holders⟩ := by
      rw [Gate.step, if_neg hcancelled, if_pos hdoomed]
    have hj := h.task_ne hi hdoomed (by simp)
    rw [Waiting, hstep] at hi'
    obtain ⟨hahead, hpending⟩ := h.passed_on (by simp) hj (g.value + 1) hi'
    refine ⟨by simp [hout], ?_, ?_⟩
    · rw [hstep]
      exact hahead
    · rw [hstep, freed, if_neg hcancelled, if_pos hdoomed]
      show pendingAhead i (wakeUpAll _ _).waiters + 1 ≤ _
      omega
  · apply holds_of_idle
    · rw [Gate.step, if_neg hcancelled, if_neg hdoomed]
    · rw [freed, if_neg hcancelled, if_neg hdoomed]

theorem Fair.holds_release (h : g.Fair permits) (hi : g.Waiting i) (j : ι)
    (hi' : (g.step (.release j)).Waiting i) : Holds i g (.release j) := by
  by_cases hinside : j ∈ g.holders
  · cases hwake : wakeUpNext g.waiters with
    | none => exact absurd ⟨_, hi, rfl⟩ (wakeUpNext_eq_none hwake)
    | some ws =>
        have hstep : g.step (.release j) = ⟨⟨g.value, ws⟩, g.holders.erase j⟩ := by
          rw [Gate.step, if_pos hinside, Semaphore.release, hwake]
        have hwoken := wakeUpNext_woken hwake
        rw [Waiting, hstep] at hi'
        have hpending := hwoken.pendingAhead_eq h.line hi'
        refine ⟨?_, ?_, ?_⟩
        · rw [entered_of_holders_eq (by rw [hstep]; exact List.erase_sublist.subset)]
          simp
        · rw [hstep, ahead_congr hwoken.tasks]
          exact List.Subset.refl _
        · rw [hstep, freed, if_pos hinside]
          show pendingAhead i ws + 1 ≤ _
          omega
  · apply holds_of_idle
    · rw [Gate.step, if_neg hinside]
    · rw [freed, if_neg hinside]

theorem Fair.holds (h : g.Fair permits) (e : GateEvent ι) (hi : g.Waiting i)
    (hi' : (g.step e).Waiting i) : Holds i g e := by
  cases e with
  | acquire j => exact hi.holds_acquire j
  | resume j => exact h.holds_resume hi j hi'
  | cancel j => exact holds_cancel j
  | unwind j => exact h.holds_unwind hi j hi'
  | release j => exact h.holds_release hi j hi'

/-- While a task waits, only those in front of it get inside, and no more permits are given
back than there are pending tasks in front of it. -/
theorem Fair.first_come (h : g.Fair permits) {es : List (GateEvent ι)}
    (hwaits : Run.Throughout Gate.step (Waiting i) g es) :
    (∀ j ∈ g.entries es, j ∈ ahead i g.waiters) ∧ g.freedBy es ≤ pendingAhead i g.waiters := by
  induction es generalizing g with
  | nil => simp [entries, freedBy]
  | cons e es ih =>
      obtain ⟨hi, hrest⟩ := hwaits
      have hi' : (g.step e).Waiting i := by
        cases es with
        | nil => exact hrest
        | cons => exact hrest.1
      have hstep := h.holds e hi hi'
      obtain ⟨hentries, hfreed⟩ := ih (h.step e) hrest
      constructor
      · intro j hj
        rcases List.mem_append.mp hj with hj | hj
        · exact hstep.entered j hj
        · exact hstep.ahead (hentries j hj)
      · have hpending := hstep.pending
        show g.freed e + freedBy (g.step e) es ≤ _
        omega

end Gate

end Asyncio
