import Rag.Lib.Semaphore
import Rag.Lib.Dict
import Mathlib.Data.Int.Notation

/-!
`rag.api.deps`: the cap on the agent turns a tenant may have running.

`_run_agent` holds the semaphore of the caller's tenant for as long as the turn runs. All
requests share one event loop. A request reaches `async with` (`acquire`), goes on once it was
handed a permit (`resume`) and leaves when the turn returns, raises or is cancelled (`release`);
`TimeoutMiddleware` or a closed connection cancels a request that waits (`cancel`), which then
leaves the line (`unwind`).
-/

namespace Rag

open Py Asyncio

variable {ι : Type}

/-- `_tenant_semaphores` of an `AppState`, with the limit of its settings. -/
structure TenantSemaphores (ι : Type) where
  agentMaxConcurrentPerTenant : ℤ
  table : Dict String (Semaphore ι) := .empty

namespace TenantSemaphores

/-- The permits a tenant gets. -/
def limit (state : TenantSemaphores ι) : Nat := (max 1 state.agentMaxConcurrentPerTenant).toNat

def agentSemaphoreFor (state : TenantSemaphores ι) (tenant : String) :
    Semaphore ι × TenantSemaphores ι :=
  match state.table.get? tenant with
  | some semaphore => (semaphore, state)
  | none =>
      (⟨state.limit, []⟩, { state with table := state.table.set tenant ⟨state.limit, []⟩ })

/-- The semaphore of a tenant has changed in place. -/
def put (state : TenantSemaphores ι) (tenant : String) (semaphore : Semaphore ι) :
    TenantSemaphores ι :=
  { state with table := state.table.set tenant semaphore }

theorem agentSemaphoreFor_put (state : TenantSemaphores ι) (tenant t : String)
    (semaphore : Semaphore ι) :
    (((state.agentSemaphoreFor tenant).2.put tenant semaphore).agentSemaphoreFor t).1
      = if t = tenant then semaphore else (state.agentSemaphoreFor t).1 := by
  have hkept : ∀ s : TenantSemaphores ι, ((s.put tenant semaphore).agentSemaphoreFor t).1
      = if t = tenant then semaphore else (s.agentSemaphoreFor t).1 := by
    intro s
    simp only [agentSemaphoreFor, put, Dict.get?_set]
    by_cases h : t = tenant
    · simp [h]
    · simp only [if_neg h]
      cases s.table.get? t <;> rfl
  rw [hkept]
  by_cases h : t = tenant
  · simp [h]
  · simp only [if_neg h, agentSemaphoreFor]
    cases hfound : state.table.get? tenant with
    | some found => rfl
    | none =>
        simp only [Dict.get?_set, if_neg h]
        cases state.table.get? t <;> rfl

end TenantSemaphores

/-- The semaphores and the requests inside their `async with`. -/
structure AgentGate (ι : Type) where
  semaphores : TenantSemaphores ι
  running : List ι := []

namespace AgentGate

variable [DecidableEq ι] (tenant : ι → String)

/-- A request takes its turn. It finds the semaphore it was given before: the table never
replaces one. -/
def turn (s : AgentGate ι) (e : GateEvent ι) : AgentGate ι :=
  let (semaphore, state) := s.semaphores.agentSemaphoreFor (tenant e.task)
  let gate := Gate.step ⟨semaphore, s.running⟩ e
  ⟨state.put (tenant e.task) gate.toSemaphore, gate.holders⟩

/-- No request has come yet. -/
def ready (agentMaxConcurrentPerTenant : ℤ) : AgentGate ι where
  semaphores := ⟨agentMaxConcurrentPerTenant, .empty⟩

/-- The agent turns of a tenant that run. -/
def runningOf (t : String) (s : AgentGate ι) : List ι := s.running.filter fun i => tenant i = t

/-- The requests of a tenant that stand in line. -/
def line (t : String) (s : AgentGate ι) : List (Waiter ι) :=
  (s.semaphores.agentSemaphoreFor t).1.waiters

/-- What concerns one tenant. -/
def view (t : String) (s : AgentGate ι) : Gate ι :=
  ⟨(s.semaphores.agentSemaphoreFor t).1, s.runningOf tenant t⟩

theorem view_turn (t : String) (s : AgentGate ι) (e : GateEvent ι) :
    (s.turn tenant e).view tenant t
      = if tenant e.task = t then (s.view tenant t).step e else s.view tenant t := by
  have hview : (s.turn tenant e).view tenant t
      = ⟨(((s.semaphores.agentSemaphoreFor (tenant e.task)).2.put (tenant e.task)
          (Gate.step ⟨(s.semaphores.agentSemaphoreFor (tenant e.task)).1, s.running⟩
            e).toSemaphore).agentSemaphoreFor t).1,
        (Gate.step ⟨(s.semaphores.agentSemaphoreFor (tenant e.task)).1, s.running⟩
          e).holders.filter fun i => tenant i = t⟩ := rfl
  rw [hview, TenantSemaphores.agentSemaphoreFor_put]
  split_ifs with h h' h'
  · subst h
    exact (Gate.step_filter _ _ e (by simp)).symm
  · exact absurd h.symm h'
  · exact absurd h'.symm h
  · rw [Gate.filter_step _ _ e (by simpa using h')]
    rfl

/-- The events of the requests of one tenant. -/
def ofTenant (t : String) (es : List (GateEvent ι)) : List (GateEvent ι) :=
  es.filter fun e => tenant e.task = t

theorem view_run (t : String) (s : AgentGate ι) (es : List (GateEvent ι)) :
    (es.foldl (turn tenant) s).view tenant t
      = (ofTenant tenant t es).foldl Gate.step (s.view tenant t) := by
  induction es generalizing s with
  | nil => rfl
  | cons e es ih =>
      rw [List.foldl_cons, ih, view_turn, ofTenant, ofTenant, List.filter_cons]
      by_cases h : tenant e.task = t
      · simp [h]
      · simp [h]

omit [DecidableEq ι] in
theorem view_ready (limit : ℤ) (t : String) :
    (ready limit : AgentGate ι).view tenant t = Gate.start (max 1 limit).toNat := rfl

theorem fair_run (limit : ℤ) (es : List (GateEvent ι)) (t : String) :
    ((es.foldl (turn tenant) (ready limit)).view tenant t).Fair (max 1 limit).toNat := by
  rw [view_run, view_ready]
  exact (Gate.fair_start _).run _

/-- The agent turns of a tenant that has `permits`: never more of them run, no permit is lost,
and a request stands in line only while all permits are taken, counting those granted to
requests that are about to go on. -/
structure Capped (permits : Nat) (t : String) (s : AgentGate ι) : Prop where
  atMost : (s.runningOf tenant t).length ≤ permits
  kept : (s.semaphores.agentSemaphoreFor t).1.value + grants (s.line t)
    + (s.runningOf tenant t).length = permits
  full : AnyPending (s.line t) → (∀ w ∈ s.line t, w.wait.granted = false) →
    (s.runningOf tenant t).length = permits

/-- Whatever the requests do, in whatever order their turns come. -/
theorem agent_turns_capped (limit : ℤ) (es : List (GateEvent ι)) (t : String) :
    Capped tenant (max 1 limit).toNat t (es.foldl (turn tenant) (ready limit)) := by
  have hfair := fair_run tenant limit es t
  exact ⟨hfair.holders_le, hfair.balance, fun hpending hidle => hfair.taken hidle hpending⟩

/-- What the requests of other tenants do makes no difference to a tenant. -/
theorem tenants_apart (t : String) (s : AgentGate ι) (es : List (GateEvent ι)) :
    (es.foldl (turn tenant) s).view tenant t
      = ((ofTenant tenant t es).foldl (turn tenant) s).view tenant t := by
  have htwice : ofTenant tenant t (ofTenant tenant t es) = ofTenant tenant t es := by
    simp [ofTenant]
  rw [view_run, view_run, htwice]

/-- The turns of a tenant that start at an event. -/
def started (t : String) (s : AgentGate ι) (e : GateEvent ι) : List ι :=
  ((s.turn tenant e).runningOf tenant t).filter fun i => i ∉ s.runningOf tenant t

/-- The turns of a tenant that end at an event. -/
def ended (t : String) (s : AgentGate ι) : GateEvent ι → Nat
  | .release i => if i ∈ s.runningOf tenant t then 1 else 0
  | _ => 0

def startedAlong (t : String) : AgentGate ι → List (GateEvent ι) → List ι
  | _, [] => []
  | s, e :: es => s.started tenant t e ++ startedAlong t (s.turn tenant e) es

def endedAlong (t : String) : AgentGate ι → List (GateEvent ι) → Nat
  | _, [] => 0
  | s, e :: es => s.ended tenant t e + endedAlong t (s.turn tenant e) es

theorem started_other {t : String} {s : AgentGate ι} {e : GateEvent ι} (h : tenant e.task ≠ t) :
    s.started tenant t e = [] := by
  have hrunning : (s.turn tenant e).runningOf tenant t = s.runningOf tenant t := by
    have hview := view_turn tenant t s e
    rw [if_neg h] at hview
    exact congrArg Gate.holders hview
  rw [started, hrunning, List.filter_eq_nil_iff]
  simp

theorem started_own {t : String} {s : AgentGate ι} {e : GateEvent ι} (h : tenant e.task = t) :
    s.started tenant t e = (s.view tenant t).entered e := by
  have hview := view_turn tenant t s e
  rw [if_pos h] at hview
  have hrunning : (s.turn tenant e).runningOf tenant t = ((s.view tenant t).step e).holders :=
    congrArg Gate.holders hview
  rw [started, hrunning]
  rfl

theorem ended_le (t : String) (s : AgentGate ι) (e : GateEvent ι) :
    s.ended tenant t e ≤ if tenant e.task = t then (s.view tenant t).freed e else 0 := by
  cases e with
  | release i =>
      rw [ended]
      by_cases hrunning : i ∈ s.runningOf tenant t
      · have htenant : tenant i = t := by
          simpa using (List.mem_filter.mp hrunning).2
        have hfreed : (s.view tenant t).freed (.release i) = 1 := if_pos hrunning
        rw [if_pos hrunning, GateEvent.task, if_pos htenant]
        exact Nat.le_of_eq hfreed.symm
      · rw [if_neg hrunning]
        exact Nat.zero_le _
  | _ => exact Nat.zero_le _

theorem startedAlong_eq (t : String) (s : AgentGate ι) (es : List (GateEvent ι)) :
    s.startedAlong tenant t es = (s.view tenant t).entries (ofTenant tenant t es) := by
  induction es generalizing s with
  | nil => rfl
  | cons e es ih =>
      rw [startedAlong, ih, view_turn, ofTenant, ofTenant, List.filter_cons]
      by_cases h : tenant e.task = t
      · simp [h, started_own tenant h, Gate.entries]
      · simp [h, started_other tenant h]

theorem endedAlong_le (t : String) (s : AgentGate ι) (es : List (GateEvent ι)) :
    s.endedAlong tenant t es ≤ (s.view tenant t).freedBy (ofTenant tenant t es) := by
  induction es generalizing s with
  | nil => exact Nat.le_refl 0
  | cons e es ih =>
      have hhead := ended_le tenant t s e
      have htail := ih (s.turn tenant e)
      rw [view_turn, ofTenant] at htail
      rw [endedAlong, ofTenant, List.filter_cons]
      by_cases h : tenant e.task = t
      · rw [if_pos h] at hhead htail
        simp only [h, decide_true, if_true, Gate.freedBy]
        exact Nat.add_le_add hhead htail
      · rw [if_neg h] at hhead htail
        simp only [h, decide_false, Bool.false_eq_true, if_false]
        omega

/-- The request stands in line and has not been handed a permit. -/
def Waits (i : ι) (s : AgentGate ι) : Prop := ⟨i, .pending⟩ ∈ s.line (tenant i)

instance (i : ι) (s : AgentGate ι) : Decidable (Waits tenant i s) :=
  inferInstanceAs (Decidable (_ ∈ _))

theorem waiting_view {i : ι} {s : AgentGate ι} {es : List (GateEvent ι)}
    (h : Run.Throughout (turn tenant) (Waits tenant i) s es) :
    Run.Throughout Gate.step (Gate.Waiting i) (s.view tenant (tenant i))
      (ofTenant tenant (tenant i) es) := by
  induction es generalizing s with
  | nil => exact h
  | cons e es ih =>
      have hrest := ih h.2
      rw [view_turn] at hrest
      rw [ofTenant, List.filter_cons]
      by_cases he : tenant e.task = tenant i
      · rw [if_pos he] at hrest
        simp only [he, decide_true, if_true]
        exact ⟨h.1, hrest⟩
      · rw [if_neg he] at hrest
        simp only [he, decide_false, Bool.false_eq_true, if_false]
        exact hrest

/-- While a request waits, the only turns of its tenant to start are of requests that stood in
front of it, and no more turns of its tenant end than there are waiting requests in front of it:
the next one to end lets it in. -/
theorem first_come_first_served (limit : ℤ) (es later : List (GateEvent ι)) (i : ι)
    (hwaits : Run.Throughout (turn tenant) (Waits tenant i)
      (es.foldl (turn tenant) (ready limit)) later) :
    (∀ j ∈ (es.foldl (turn tenant) (ready limit)).startedAlong tenant (tenant i) later,
      j ∈ ahead i ((es.foldl (turn tenant) (ready limit)).line (tenant i)))
    ∧ (es.foldl (turn tenant) (ready limit)).endedAlong tenant (tenant i) later
      ≤ pendingAhead i ((es.foldl (turn tenant) (ready limit)).line (tenant i)) := by
  have hfair := fair_run tenant limit es (tenant i)
  obtain ⟨hentries, hfreed⟩ := hfair.first_come (waiting_view tenant hwaits)
  constructor
  · intro j hj
    rw [startedAlong_eq] at hj
    exact hentries j hj
  · exact Nat.le_trans (endedAlong_le tenant _ _ _) hfreed

/-- Three requests of one tenant with room for one turn: while the third waits, the second
starts and one turn ends. -/
theorem third_waits :
    let s := [.acquire 0, .acquire 1, .acquire 2].foldl (turn fun _ => "acme") (ready 1)
    (∀ j ∈ s.startedAlong (fun _ => "acme") "acme" [.release 0, .resume 1],
      j ∈ ahead 2 (s.line "acme"))
    ∧ s.endedAlong (fun _ => "acme") "acme" [.release 0, .resume 1]
      ≤ pendingAhead 2 (s.line "acme") :=
  first_come_first_served (fun _ : Nat => "acme") 1 [.acquire 0, .acquire 1, .acquire 2]
    [.release 0, .resume 1] 2 ⟨by decide, by decide, (by decide : Waits _ 2 _)⟩

end AgentGate

end Rag
