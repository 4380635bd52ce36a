import Rag.Agent.Veil
import Rag.Pipelines.Provenance

/-!
Where the citations of a turn come from.

The runtime cites in two ways: from the ledger, which holds sources of tool results, and
by handing over the pipeline's answer. `serve` puts the two together: it answers the
runtime's fallback by a run of the pipeline for the same question and principal, so one
trace holds what the tools, the backends and the models of both did.
-/

namespace Rag

open Py Interaction AgentRuntime

/-- The sources of a successful tool run. -/
def sourcesOf : AgentEvent → List Source
  | ⟨.runTool _ _ _ _, .ok result⟩ => if result.ok then result.sources else []
  | _ => []

/-- The sources the tools of `t` returned. -/
def toolSources (t : List AgentEvent) : List Source := t.flatMap sourcesOf

@[simp] theorem toolSources_append (t u : List AgentEvent) :
    toolSources (t ++ u) = toolSources t ++ toolSources u :=
  List.flatMap_append

theorem toolSources_of_mem {t : List AgentEvent} {e : AgentEvent} {source : Source}
    (he : e ∈ t) (hsource : source ∈ sourcesOf e) : source ∈ toolSources t :=
  List.mem_flatMap.mpr ⟨e, he, hsource⟩

section Tools

variable [Runtime] {registry : ToolRegistry} {t : List AgentEvent}

/-- The sources of a successful result were returned by a tool. -/
def FromTools (t : List AgentEvent) (r : Except Failure ToolResult) : Prop :=
  ∀ result, r = .ok result → result.ok = true → result.sources ⊆ toolSources t

omit [Runtime] in
theorem fromTools_error (failure : Failure) : FromTools t (.error failure) := by
  rintro result ⟨⟩

omit [Runtime] in
theorem fromTools_failed (call : ToolCall) (error : String) :
    FromTools t (.ok (call.failed error)) := by
  rintro result ⟨⟩ hok
  cases hok

theorem runChecked_spec (hcache : registry.resultCache = false) (principal : Principal)
    (indexVersion : String) (call : ToolCall) (arguments : List (String × Json))
    (budget : BudgetTracker) :
    Prog.Spec (Recorded t) (fun _ => True)
      (runChecked registry principal indexVersion call arguments budget) (FromTools t) := by
  have hlookup : ∀ key, cachedResult registry key = pure (.ok none) := by
    intro key
    rw [cachedResult, hcache]
    rfl
  have hstore : ∀ key result, storeResult registry key result = pure (.ok result) := by
    intro key result
    rw [storeResult, hcache]
    rfl
  unfold runChecked
  simp only [hlookup, hstore, pure_bind]
  refine ⟨trivial, ?_⟩
  rintro ((exn | _) | result) hrecorded
  · exact fromTools_failed _ _
  · exact fromTools_error _
  · rintro _ ⟨⟩ hok source hsource
    refine toolSources_of_mem hrecorded ?_
    have hresult : result.ok = true := hok
    rw [sourcesOf, if_pos hresult]
    exact hsource

theorem execute_spec (hcache : registry.resultCache = false) (allowEgress : Bool)
    (principal : Principal) (indexVersion : String) (call : ToolCall) (budget : BudgetTracker) :
    Prog.Spec (Recorded t) (fun _ => True)
      (execute registry allowEgress principal indexVersion call budget) (FromTools t) := by
  refine ⟨trivial, fun _ _ => ?_⟩
  show Prog.Spec _ _ (dispatch registry allowEgress principal indexVersion call budget) _
  unfold dispatch
  split
  · exact fromTools_failed _ _
  · rename_i tool _
    split_ifs
    · exact fromTools_failed _ _
    · refine ⟨trivial, ?_⟩
      rintro (exn | _ | _) -
      · exact fromTools_error _
      · exact fromTools_failed _ _
      · dsimp only
        split
        · split_ifs
          · exact fromTools_failed _ _
          · exact fromTools_error _
        · exact runChecked_spec hcache _ _ _ _ _

theorem runTools_sources {rt : AgentRuntime} {turn : Turn} (hcache : rt.tools.resultCache = false)
    {calls : List ToolCall} {budget : BudgetTracker} {results : List ToolResult}
    (h : Prog.Runs (runTools rt turn calls budget) t (.ok results)) :
    ∀ result ∈ results, result.ok = true → result.sources ⊆ toolSources t := by
  have hspec : Prog.Spec (Recorded t) (fun _ => True) (runTools rt turn calls budget)
      (Prog.Gathered (FromTools t)) := by
    refine Prog.Spec.gather trivial ?_
    intro p hp
    obtain ⟨call, -, rfl⟩ := List.mem_map.mp hp
    exact execute_spec hcache _ _ _ _ _
  obtain ⟨-, hok, -⟩ := hspec.runs h fun _ he => he
  intro result hresult
  exact hok results rfl result hresult result rfl

omit [Runtime] in
theorem authorisedSources_subset {results : List ToolResult} (principal : Principal)
    (h : ∀ result ∈ results, result.ok = true → result.sources ⊆ toolSources t) :
    authorisedSources results principal ⊆ toolSources t := by
  intro source hsource
  obtain ⟨result, hresult, hin⟩ := List.mem_flatMap.mp hsource
  split_ifs at hin with hok
  · exact h result hresult hok (List.mem_of_mem_filter hin)
  · cases hin

end Tools

/-- The ledger holds sources of tool results only. -/
def Sourced (h : List AgentEvent) (s : LoopState) : Prop := s.ledger.sources ⊆ toolSources h

theorem Sourced.append {h : List AgentEvent} {s : LoopState} (hs : Sourced h s)
    (t : List AgentEvent) : Sourced (h ++ t) s := by
  intro source hsource
  rw [toolSources_append]
  exact List.mem_append_left _ (hs hsource)

/-- Where a way out of the loop leaves the citations. -/
def ExitSourced (turn : Turn) (h : List AgentEvent) : LoopExit → Prop
  | .stopped s _ => Sourced h s
  | .deadline s => Sourced h s
  | .raised s _ => Sourced h s
  | .returned answer => ∀ c ∈ answer.citations, ∃ fallback,
      (⟨.answer turn.question turn.principal, .ok fallback⟩ : AgentEvent) ∈ h
        ∧ c ∈ fallback.citations

section Ledger

variable [Runtime] {rt : AgentRuntime} {turn : Turn} {s : LoopState} {h t : List AgentEvent}
  {x : LoopState ⊕ LoopExit}

omit [Runtime] in
/-- The pipeline's citations are handed over as they are. -/
theorem fallbackAnswer_citations {e : TurnEnd} {reason : String} {outcome : Except Exn Answer}
    {answer : AgentAnswer} (hr : Prog.Runs (fallbackAnswer rt e reason outcome) t answer) :
    ∀ c ∈ answer.citations, ∃ fallback, outcome = .ok fallback ∧ c ∈ fallback.citations := by
  intro c hc
  have hdegrades := (fallbackAnswer_runs hr).1
  cases outcome with
  | error exn =>
      rw [hdegrades.2.1] at hc
      cases hc
  | ok fallback =>
      rw [hdegrades.2.1] at hc
      exact ⟨fallback, rfl, hc⟩

theorem planned_sourced {r : Except Failure ChatCompletion}
    (hcache : rt.tools.resultCache = false) (hs : Sourced h s) (hp : Planned rt turn s r t x) :
    Sum.elim (Sourced (h ++ t)) (ExitSourced turn (h ++ t)) x := by
  cases hp with
  | deadline => exact hs.append _
  | fallbackLate exn outcome => exact hs.append _
  | fallback exn outcome u answer hu =>
      intro c hc
      obtain ⟨fallback, rfl, hin⟩ := fallbackAnswer_citations hu c hc
      exact ⟨fallback, by simp, hin⟩
  | toolsFailed c u failure hcalls hu =>
      cases failure <;> exact hs.append _
  | acted c u results hcalls hu =>
      intro source hsource
      rw [toolSources_append]
      rcases EvidenceLedger.mem_add (EvidenceLedger.mem_sources.mp hsource) with hnew | hold
      · have hsub := authorisedSources_subset turn.principal
          (runTools_sources hcache hu)
        exact List.mem_append_right _ (hsub hnew)
      · exact List.mem_append_left _ (hs (EvidenceLedger.mem_sources.mpr hold))
  | nudged c hcalls hdraft => exact hs.append _
  | exhausted c hcalls hdraft hspent => exact hs.append _
  | criticFailed c hcalls hdraft hopen failure =>
      cases failure <;> exact hs.append _
  | unreadable c hcalls hdraft hopen judgement exn hparse => exact hs.append _
  | approved c hcalls hdraft hopen judgement verdict hparse hverdict => exact hs.append _
  | rejected c hcalls hdraft hopen judgement verdict hparse hverdict => exact hs.append _

theorem pass_sourced (hcache : rt.tools.resultCache = false) (hs : Sourced h s)
    (hp : Pass rt turn s t x) : Sum.elim (Sourced (h ++ t)) (ExitSourced turn (h ++ t)) x := by
  cases hp with
  | spent hspent => exact hs.append _
  | late elapsed hopen hlate => exact hs.append _
  | planned elapsed r u x hopen htime hplanned =>
      have hstart : Sourced (h ++ [⟨.elapsed, elapsed⟩, ⟨.chat s.messages (offered turn), r⟩])
          (stepped s) := hs.append _
      have hafter := planned_sourced hcache hstart hplanned
      rwa [List.append_assoc] at hafter

/-- A citation of a turn with the trace `t`. -/
def CitedBy (turn : Turn) (t : List AgentEvent) (c : Citation) : Prop :=
  (∃ source ∈ toolSources t, mayCite turn.principal source = true ∧ c = citationFromSource source)
    ∨ ∃ fallback, (⟨.answer turn.question turn.principal, .ok fallback⟩ : AgentEvent) ∈ t
      ∧ c ∈ fallback.citations

theorem finalize_citations {stop : StopReason} {answer : AgentAnswer} (hs : Sourced h s)
    (hr : Prog.Runs (finalize rt turn s stop) t answer) :
    ∀ c ∈ answer.citations, CitedBy turn (h ++ t) c := by
  intro c hc
  rcases finalize_runs hr with ⟨-, -, -, -, hcitations⟩ | ⟨outcome, u, e, reason, rfl, -, hu⟩
  · rw [hcitations] at hc
    obtain ⟨source, hsource, rfl⟩ := mem_resolveSourceCitations hc
    obtain ⟨hin, hmay⟩ := List.mem_filter.mp hsource
    exact Or.inl ⟨source, (hs.append t) hin, hmay, rfl⟩
  · obtain ⟨fallback, rfl, hin⟩ := fallbackAnswer_citations hu c hc
    exact Or.inr ⟨fallback, by simp, hin⟩

theorem leave_citations {exit : LoopExit} {answer : AgentAnswer} (he : ExitSourced turn h exit)
    (hr : Prog.Runs (leave rt turn exit) t (.ok answer)) :
    ∀ c ∈ answer.citations, CitedBy turn (h ++ t) c := by
  have hleave := leave_runs hr
  cases exit with
  | stopped s stop =>
      obtain ⟨_, ⟨⟩, hfinal⟩ := hleave
      exact finalize_citations he hfinal
  | deadline s =>
      obtain ⟨_, ⟨⟩, hfinal⟩ := hleave
      exact finalize_citations he hfinal
  | returned out =>
      obtain ⟨rfl, ⟨⟩⟩ := hleave
      intro c hc
      obtain ⟨fallback, hin, hcited⟩ := he c hc
      exact Or.inr ⟨fallback, by simpa using hin, hcited⟩
  | raised s exn =>
      rcases hleave with ⟨-, _, ⟨⟩, hfinal⟩ | ⟨-, -, ⟨⟩⟩
      exact finalize_citations he hfinal

/-- Every citation of a turn is of a source a tool returned and the principal may cite,
or one of the pipeline's answer to the same question and principal. -/
theorem run_citations {question : String} {principal : Principal} {budget : Option Budget}
    {answer : AgentAnswer} (hcache : rt.tools.resultCache = false)
    (hr : Prog.Runs (run rt question principal budget) t (some (.ok answer))) :
    ∀ c ∈ answer.citations,
      (∃ source ∈ toolSources t, mayCite principal source = true ∧ c = citationFromSource source)
        ∨ ∃ fallback, (⟨.answer question principal, .ok fallback⟩ : AgentEvent) ∈ t
          ∧ c ∈ fallback.citations := by
  cases run_cases hr with
  | finished turn pre loop post exit out hopen hloop hleave =>
      have hstart : Sourced pre (start rt turn ((budget.getD rt.budget).clamp rt.budget)) := by
        intro source hsource
        cases EvidenceLedger.mem_sources.mp hsource
      have hround : ∀ h s t s', Sourced h s → Prog.Runs (iteration rt turn s) t (.inl s') →
          Sourced (h ++ t) s' := by
        intro h s t s' hs hrun
        exact pass_sourced hcache hs (iteration_pass hrun)
      obtain ⟨t₁, s', t₂, rfl, hs', hexit⟩ := Prog.runs_iterate hround hstart hloop
      have hexit := pass_sourced hcache hs' (iteration_pass hexit)
      have hcited := leave_citations hexit hleave
      rw [← hopen.question_eq, ← hopen.principal_eq]
      simpa only [CitedBy, List.append_assoc] using hcited

end Ledger

/-- The pipeline is asked nothing but this question, for this principal. -/
def AsksFor (question : String) (principal : Principal) : AgentOp → Prop
  | .answer q p => q = question ∧ p = principal
  | _ => True

section Asked

variable {question : String} {principal : Principal} {o : AgentOp}

theorem asksFor_of_listing (h : o.isListing = true) : AsksFor question principal o := by
  cases o <;> trivial

theorem asksFor_of_tooling (h : o.isTooling = true) : AsksFor question principal o := by
  cases o <;> trivial

theorem asksFor_of_closing (h : o.isClosing = true) : AsksFor question principal o := by
  cases o <;> trivial

variable [Runtime] {rt : AgentRuntime} {turn : Turn} {s : LoopState} {t : List AgentEvent}

theorem planned_asksFor {r : Except Failure ChatCompletion} {x : LoopState ⊕ LoopExit}
    (hp : Planned rt turn s r t x) : ∀ e ∈ t, AsksFor turn.question turn.principal e.op := by
  have htools : ∀ {calls budget r}, Prog.Runs (runTools rt turn calls budget) t r →
      ∀ e ∈ t, AsksFor turn.question turn.principal e.op := by
    intro calls budget r hr e he
    exact asksFor_of_tooling ((runTools_asks rt turn calls budget).steps hr e he)
  cases hp with
  | deadline => simp
  | fallbackLate exn outcome => simp [AsksFor]
  | fallback exn outcome u answer hu =>
      have hclosing := (fallbackAnswer_asks _ _ _ _).steps hu
      simp only [List.mem_cons, forall_eq_or_imp]
      exact ⟨⟨rfl, rfl⟩, trivial, fun e he => asksFor_of_closing (hclosing e he)⟩
  | toolsFailed c _ failure hcalls hu => exact htools hu
  | acted c _ results hcalls hu => exact htools hu
  | nudged c hcalls hdraft => simp
  | exhausted c hcalls hdraft hspent => simp
  | criticFailed c hcalls hdraft hopen failure => simp [AsksFor]
  | unreadable c hcalls hdraft hopen judgement exn hparse => simp [AsksFor]
  | approved c hcalls hdraft hopen judgement verdict hparse hverdict => simp [AsksFor]
  | rejected c hcalls hdraft hopen judgement verdict hparse hverdict => simp [AsksFor]

theorem pass_asksFor {x : LoopState ⊕ LoopExit} (hp : Pass rt turn s t x) :
    ∀ e ∈ t, AsksFor turn.question turn.principal e.op := by
  cases hp with
  | spent hspent => simp
  | late elapsed hopen hlate => simp [AsksFor]
  | planned elapsed r u x hopen htime hplanned =>
      simp only [List.mem_cons, forall_eq_or_imp]
      exact ⟨trivial, trivial, planned_asksFor hplanned⟩

theorem finalize_asksFor {stop : StopReason} {answer : AgentAnswer}
    (hr : Prog.Runs (finalize rt turn s stop) t answer) :
    ∀ e ∈ t, AsksFor turn.question turn.principal e.op := by
  rcases finalize_runs hr with ⟨-, -, -, ⟨e, base, hbuilt⟩, -⟩ | ⟨outcome, u, e, reason, rfl, -, hu⟩
  · intro e' he'
    exact asksFor_of_closing ((buildAnswer_asks _ _ _ _ _ _).steps hbuilt e' he')
  · have hclosing := (fallbackAnswer_asks _ _ _ _).steps hu
    simp only [List.mem_cons, forall_eq_or_imp]
    exact ⟨⟨rfl, rfl⟩, fun e he => asksFor_of_closing (hclosing e he)⟩

theorem leave_asksFor {exit : LoopExit} {out : Except Exn AgentAnswer}
    (hr : Prog.Runs (leave rt turn exit) t out) :
    ∀ e ∈ t, AsksFor turn.question turn.principal e.op := by
  have hleave := leave_runs hr
  cases exit with
  | stopped s stop =>
      obtain ⟨_, -, hfinal⟩ := hleave
      exact finalize_asksFor hfinal
  | deadline s =>
      obtain ⟨_, -, hfinal⟩ := hleave
      exact finalize_asksFor hfinal
  | returned answer =>
      obtain ⟨rfl, -⟩ := hleave
      simp
  | raised s exn =>
      rcases hleave with ⟨-, _, -, hfinal⟩ | ⟨-, rfl, -⟩
      · exact finalize_asksFor hfinal
      · simp

theorem run_asksFor {budget : Option Budget} {r : Option (Except Exn AgentAnswer)}
    (hr : Prog.Runs (run rt question principal budget) t r) :
    ∀ e ∈ t, AsksFor question principal e.op := by
  have hlisting : ∀ {u out}, Prog.Runs (specs rt.tools rt.allowEgress) u out →
      ∀ e ∈ u, AsksFor question principal e.op := by
    intro u out hu e he
    exact asksFor_of_listing ((specs_asks _ _).steps hu e he)
  have hloop : ∀ {turn : Turn} {pre loop : List AgentEvent} {n s out},
      Opening rt question principal turn pre →
      Prog.Runs (Prog.iterate (iteration rt turn) n s) loop out →
      ∀ e ∈ pre ++ loop, AsksFor question principal e.op := by
    intro turn pre loop n s out hopen hloop e he
    rcases List.mem_append.mp he with he | he
    · obtain ⟨u, hu, rfl⟩ := hopen.events
      rcases List.mem_cons.mp he with rfl | he
      · trivial
      rcases List.mem_cons.mp he with rfl | he
      · trivial
      exact hlisting hu e he
    · have hround : ∀ h s t x, True → Prog.Runs (iteration rt turn s) t x →
          Everywhere (fun _ e => AsksFor turn.question turn.principal e.op) h t
            ∧ ∀ s', x = .inl s' → True := by
        intro h s t x _ hrun
        refine ⟨(everywhere_iff _ _).mpr ?_, fun _ _ => trivial⟩
        rintro a e b rfl
        exact pass_asksFor (iteration_pass hrun) e (by simp)
      have hall := Prog.everywhere_iterate (I := fun _ _ => True) (h := []) hround trivial hloop
      obtain ⟨a, b, rfl⟩ := List.append_of_mem he
      have hask := (everywhere_iff _ _).mp hall a e b rfl
      rwa [hopen.question_eq, hopen.principal_eq] at hask
  cases run_cases hr with
  | unlisted traceId version u exn hu =>
      simp only [List.mem_cons, forall_eq_or_imp]
      exact ⟨trivial, trivial, hlisting hu⟩
  | unfinished turn pre loop hopen hrun => exact hloop hopen hrun
  | finished turn pre loop post exit out hopen hrun hleave =>
      intro e he
      rw [← List.append_assoc] at he
      rcases List.mem_append.mp he with he | he
      · exact hloop hopen hrun e he
      · have hask := leave_asksFor hleave e he
        rwa [hopen.question_eq, hopen.principal_eq] at hask

end Asked

abbrev ServiceOp : Type := AgentOp ⊕ PipeOp

@[reducible] def ServiceResp : ServiceOp → Type
  | .inl o => AgentResp o
  | .inr o => PipeResp o

abbrev ServiceEvent : Type := Event ServiceOp ServiceResp

def onPipeline (o : PipeOp) : Prog ServiceOp ServiceResp (PipeResp o) :=
  Prog.perform (Sum.inr o : ServiceOp)

def onAgent (o : AgentOp) : Prog ServiceOp ServiceResp (AgentResp o) :=
  Prog.perform (Sum.inl o : ServiceOp)

/-- The pipeline answers the fallback; everything else is asked of the environment. -/
def serve [Runtime] (pipeline : OnlinePipeline) :
    (o : AgentOp) → Prog ServiceOp ServiceResp (AgentResp o)
  | .answer question principal => Prog.interp onPipeline (pipeline.answer question principal).run
  | o => onAgent o

def agentEvent : ServiceEvent → Option AgentEvent
  | ⟨.inl o, r⟩ => some ⟨o, r⟩
  | ⟨.inr _, _⟩ => none

def pipeEvent : ServiceEvent → Option PipeEvent
  | ⟨.inl _, _⟩ => none
  | ⟨.inr o, r⟩ => some ⟨o, r⟩

/-- What the pipeline asked in `t`. -/
def pipePart (t : List ServiceEvent) : List PipeEvent := t.filterMap pipeEvent

/-- What the runtime asked in `t`. -/
def agentPart (t : List ServiceEvent) : List AgentEvent := t.filterMap agentEvent

theorem runs_onPipeline {α : Type} {p : Prog PipeOp PipeResp α} {t : List ServiceEvent} {a : α}
    (h : Prog.Runs (Prog.interp onPipeline p) t a) : Prog.Runs p (pipePart t) a := by
  induction p generalizing t with
  | ret b =>
      obtain ⟨rfl, rfl⟩ := (Prog.runs_ret_iff _ _ _).mp h
      exact .refl _
  | call o k ih =>
      obtain ⟨r, u, rfl, hu⟩ := (Prog.runs_call_iff _ _ _ _).mp h
      exact (Prog.runs_call_iff o k _ _).mpr ⟨r, pipePart u, rfl, ih r hu⟩

section Service

variable [Runtime] {pipeline : OnlinePipeline}

/-- What the runtime asks of its other collaborators is left to the environment. -/
theorem serve_eq {o : AgentOp} (h : ∀ question principal, o ≠ .answer question principal) :
    serve pipeline o = onAgent o := by
  cases o <;> first | rfl | exact absurd rfl (h _ _)

theorem serve_runs {o : AgentOp} {r : AgentResp o} {t : List ServiceEvent}
    (h : ∀ question principal, o ≠ .answer question principal)
    (hr : Prog.Runs (serve pipeline o) t r) : t = [⟨.inl o, r⟩] := by
  rw [serve_eq h] at hr
  obtain ⟨r', u, rfl, hu⟩ := (Prog.runs_call_iff _ _ _ _).mp hr
  obtain ⟨rfl, rfl⟩ := (Prog.runs_ret_iff _ _ _).mp hu
  rfl

variable {u : List AgentEvent} {t : List ServiceEvent}

/-- What the tools returned to the runtime is part of the joint trace. -/
theorem toolSources_handled (h : Prog.Handled (serve pipeline) u t) :
    toolSources u ⊆ toolSources (agentPart t) := by
  intro source hsource
  obtain ⟨⟨o, r⟩, he, hin⟩ := List.mem_flatMap.mp hsource
  obtain ⟨part, hsub, hr⟩ := h.part_of he
  cases o with
  | runTool tool arguments principal budget =>
      have hpart := serve_runs (by simp) hr
      subst hpart
      refine toolSources_of_mem (List.mem_filterMap.mpr ⟨_, hsub List.mem_cons_self, rfl⟩) hin
  | _ => cases hin

/-- The runs of the pipeline inside a joint trace. -/
theorem pipeline_runs {question : String} {principal : Principal} {outcome : Except Exn Answer}
    {part : List ServiceEvent}
    (h : Prog.Runs (serve pipeline (.answer question principal)) part outcome) :
    Prog.Runs (pipeline.answer question principal).run (pipePart part) outcome :=
  runs_onPipeline h

omit [Runtime] in
theorem pipePart_subset {part : List ServiceEvent} (h : part ⊆ t) : pipePart part ⊆ pipePart t :=
  List.filterMap_subset _ h

end Service

/-- A run of the pipeline prompts and cites from its own evidence. -/
theorem answer_evidence [Runtime] {pipeline : OnlinePipeline}
    (hcache : pipeline.settings.cacheEnabled = false) {question : String} {principal : Principal}
    {part t : List PipeEvent} {outcome : Except Exn Answer} (hsub : part ⊆ t)
    (hr : Prog.Runs (pipeline.answer question principal).run part outcome) :
    (∀ e ∈ part, PromptFrom pipeline question (Evidence t principal) e.op)
      ∧ ∀ answer, outcome = .ok answer → CitesFrom (Evidence t principal) answer.citations := by
  obtain ⟨hprompts, houtcome⟩ :=
    Prog.Spec.runs (answer_spec pipeline question principal hcache) hr fun _ he => hsub he
  refine ⟨hprompts, ?_⟩
  rintro answer rfl
  exact houtcome

/-- Whatever the backends, the models and the tools do, without the caches every prompt
of the pipeline is rendered from chunks the caller may see, and every citation of an
answer is of such a chunk, or of a tool's source that the caller may cite. -/
theorem evidence_authorised [Runtime] (pipeline : OnlinePipeline) (rt : AgentRuntime)
    (question : String) (principal : Principal) (budget : Option Budget)
    (hanswers : pipeline.settings.cacheEnabled = false)
    (hresults : rt.tools.resultCache = false) :
    (∀ t outcome, Prog.Runs (pipeline.answer question principal).run t outcome →
      (∀ e ∈ t, PromptFrom pipeline question (Evidence t principal) e.op)
      ∧ ∀ answer, outcome = .ok answer → CitesFrom (Evidence t principal) answer.citations)
    ∧ ∀ t outcome,
      Prog.Runs (Prog.interp (serve pipeline) (run rt question principal budget)) t outcome →
      (∀ e ∈ pipePart t, PromptFrom pipeline question (Evidence (pipePart t) principal) e.op)
      ∧ ∀ answer, outcome = some (.ok answer) → ∀ c ∈ answer.citations,
        (∃ scored, Evidence (pipePart t) principal scored ∧ ∃ s ∈ scored, c = citationFromScored s)
        ∨ ∃ source ∈ toolSources (agentPart t),
          mayCite principal source = true ∧ c = citationFromSource source := by
  refine ⟨fun t outcome hr => answer_evidence hanswers (List.Subset.refl t) hr, ?_⟩
  intro t outcome hr
  obtain ⟨u, hu, hhandled⟩ := Prog.runs_interp hr
  have hasked := run_asksFor hu
  constructor
  · intro e he
    obtain ⟨e', he', hpipe⟩ := List.mem_filterMap.mp he
    obtain ⟨⟨o, r⟩, hin, part, hsub, hpart, hmem⟩ := hhandled.source_of he'
    by_cases ho : ∃ q p, o = .answer q p
    · obtain ⟨q, p, rfl⟩ := ho
      obtain ⟨rfl, rfl⟩ := hasked _ hin
      have hevidence := answer_evidence hanswers (pipePart_subset hsub) (pipeline_runs hpart)
      exact hevidence.1 e (List.mem_filterMap.mpr ⟨e', hmem, hpipe⟩)
    · have hpart := serve_runs (fun q p h => ho ⟨q, p, h⟩) hpart
      subst hpart
      rw [List.mem_singleton.mp hmem] at hpipe
      cases hpipe
  · rintro answer rfl c hc
    rcases run_citations hresults hu c hc with ⟨source, hin, hmay, rfl⟩ | ⟨fallback, hin, hcited⟩
    · exact Or.inr ⟨source, toolSources_handled hhandled hin, hmay, rfl⟩
    · obtain ⟨part, hsub, hpart⟩ := hhandled.part_of hin
      have hevidence := answer_evidence hanswers (pipePart_subset hsub) (pipeline_runs hpart)
      exact Or.inl (hevidence.2 fallback rfl c hcited)

/-- A chunk of the given tenant, named after it. -/
def tenantChunk (tenant : String) : Chunk where
  chunkId := "chunk-" ++ tenant
  docId := "doc"
  ordinal := 0
  text := "text"
  span := (0, 4)
  acl := { tenant := tenant }
  indexVersion := "v1"

def mixedHits : List (ScoredChunk ℚ) :=
  [⟨tenantChunk "b", 9 / 10, 1, .dense⟩, ⟨tenantChunk "a", 8 / 10, 2, .dense⟩]

/-- Both backends return the chunks of two tenants, and the planner is down. -/
def mixedAnswers : (o : ServiceOp) → ServiceResp o
  | .inl (.chat _ _) => .error (.raised (valueError "down"))
  | .inl o => searchAnswers (hiddenResult "text" "x") o
  | .inr .startTrace => "t"
  | .inr .currentTraceId => "t"
  | .inr (.resolveAlias _) => some "v1"
  | .inr (.cacheGet _) => .ok none
  | .inr (.cacheSet _ _) => .ok ()
  | .inr (.semanticGet _ _) => .ok none
  | .inr (.semanticSet _ _ _) => .ok ()
  | .inr (.embed texts) => .ok (texts.map fun _ => [])
  | .inr (.search _ _ _ _) => .ok mixedHits
  | .inr (.lexicalSearch _ _ _ _) => .ok mixedHits
  | .inr (.rerank _ candidates _) => .ok (.all candidates)
  | .inr (.complete _) => .ok ("see [chunk-a] and [chunk-b]", {})

def uncachedPipeline : OnlinePipeline where
  settings := { cacheEnabled := false, piiRedactionEnabled := false }

/-- The turn over that store; its answer is the fallback's. -/
def mixedTurn [Runtime] : Prog ServiceOp ServiceResp (Option (Except Exn AgentAnswer)) :=
  Prog.interp (serve uncachedPipeline)
    (run bareRuntime bareTurn.question bareTurn.principal none)

/-- The chunks the answer of a turn cites. -/
def citedChunks : Option (Except Exn AgentAnswer) → List String
  | some (.ok answer) => answer.citations.map Citation.chunkId
  | _ => []

theorem evidence_authorised_mixed : let _ := Runtime.ascii
    ∃ answer, mixedTurn.result (fun _ => mixedAnswers) = some (.ok answer)
      ∧ answer.citations.map Citation.chunkId = ["chunk-a"]
      ∧ ∀ c ∈ answer.citations, ∃ s : ScoredChunk ℚ, c = citationFromScored s
        ∧ isAllowed bareTurn.principal s.chunk.acl = true := by
  intro _
  have hcited : citedChunks (mixedTurn.result fun _ => mixedAnswers) = ["chunk-a"] := by
    decide +kernel
  have htools : toolSources (agentPart (mixedTurn.trace fun _ => mixedAnswers)) = [] :=
    List.eq_nil_of_length_eq_zero (by decide +kernel)
  have hauthorised := (evidence_authorised uncachedPipeline bareRuntime bareTurn.question
    bareTurn.principal none rfl rfl).2 _ _ (Prog.runs_trace (fun _ => mixedAnswers) mixedTurn)
  rcases hanswer : mixedTurn.result fun _ => mixedAnswers with _ | exn | answer
  · rw [hanswer] at hcited
    cases hcited
  · rw [hanswer] at hcited
    cases hcited
  · rw [hanswer] at hcited
    refine ⟨answer, rfl, hcited, ?_⟩
    intro c hc
    rcases hauthorised.2 answer hanswer c hc with ⟨scored, hevidence, s, hs, rfl⟩ | ⟨_, hin, -⟩
    · exact ⟨s, rfl, (hevidence.shown s hs).allowed⟩
    · rw [htools] at hin
      cases hin

end Rag
