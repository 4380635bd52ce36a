import Rag.Agent.Asks
import Rag.Lib.Lockstep

/-!
What the models see of evidence the principal may not see.

Two turns are compared whose collaborators answer alike, except that a tool may return
different results where every source of both is denied to the principal. The sources of
such results never reach the ledger, so the critic does not see them. Their content is
handed to the planner unfiltered, so the turns stay together only while it agrees.
-/

namespace Rag

open Py Interaction AgentRuntime

/-- A successful result none of whose sources the principal may see. -/
structure Hidden (principal : Principal) (r : ToolResult) : Prop where
  ok : r.ok = true
  sources_ne : r.sources ≠ []
  denied : ∀ source ∈ r.sources, mayCite principal source = false

/-- Results that differ in what the principal may not see. -/
def Unseen (principal : Principal) (r r' : ToolResult) : Prop :=
  Hidden principal r ∧ Hidden principal r'

/-- Unseen results with the same content. -/
def Veiled (principal : Principal) (r r' : ToolResult) : Prop :=
  Unseen principal r r' ∧ r.content = r'.content

/-- The same operation, or the same entry of the result cache for results in `V`. -/
inductive AlikeOp (V : ToolResult → ToolResult → Prop) : AgentOp → AgentOp → Prop
  | same (o : AgentOp) : AlikeOp V o o
  | stored (key : ToolKey) {r r' : ToolResult} (h : V r r') :
      AlikeOp V (.toolCacheSet key r) (.toolCacheSet key r')

/-- The same event, or one in which tool results are in `V`. -/
inductive Alike (V : ToolResult → ToolResult → Prop) : AgentEvent → AgentEvent → Prop
  | same (e : AgentEvent) : Alike V e e
  | returned (name : String) (arguments : List (String × Json)) (principal : Principal)
      (budget : BudgetTracker) {r r' : ToolResult} (h : V r r') :
      Alike V ⟨.runTool name arguments principal budget, .ok r⟩
        ⟨.runTool name arguments principal budget, .ok r'⟩
  | cached (key : ToolKey) {r r' : ToolResult} (h : V r r') :
      Alike V ⟨.toolCacheGet key, .ok (some r)⟩ ⟨.toolCacheGet key, .ok (some r')⟩
  | stored (key : ToolKey) {r r' : ToolResult} (h : V r r') (a : Except Exn Unit) :
      Alike V ⟨.toolCacheSet key r, a⟩ ⟨.toolCacheSet key r', a⟩

/-- The messages the planner was called with, call by call. -/
def plannerInputs (t : List AgentEvent) : List (List Message) :=
  t.filterMap fun e => match e.op with
    | .chat messages _ => some messages
    | _ => none

/-- The messages the critic was called with, call by call. -/
def criticInputs (t : List AgentEvent) : List (List Message) :=
  t.filterMap fun e => match e.op with
    | .critique messages => some messages
    | _ => none

section Alike

variable {V : ToolResult → ToolResult → Prop}

theorem Alike.plannerInputs_eq {t t' : List AgentEvent} (h : List.Forall₂ (Alike V) t t') :
    plannerInputs t = plannerInputs t' := by
  induction h with
  | nil => rfl
  | cons he _ ih =>
      rw [plannerInputs, plannerInputs] at *
      cases he <;> simp [List.filterMap_cons, ih]

theorem Alike.criticInputs_eq {t t' : List AgentEvent} (h : List.Forall₂ (Alike V) t t') :
    criticInputs t = criticInputs t' := by
  induction h with
  | nil => rfl
  | cons he _ ih =>
      rw [criticInputs, criticInputs] at *
      cases he <;> simp [List.filterMap_cons, ih]

/-- The operations whose answers may differ. -/
def AgentOp.isVeiled : AgentOp → Bool
  | .runTool _ _ _ _ => true
  | .toolCacheGet _ => true
  | _ => false

theorem Alike.resp_eq {o : AgentOp} (ho : o.isVeiled = false) {r r' : AgentResp o}
    (h : Alike V ⟨o, r⟩ ⟨o, r'⟩) : r = r' := by
  cases h with
  | same => rfl
  | returned => cases ho
  | cached => cases ho
  | stored => rfl

theorem Alike.stored_eq {key : ToolKey} {r r' : ToolResult} {a a' : Except Exn Unit}
    (h : Alike V ⟨.toolCacheSet key r, a⟩ ⟨.toolCacheSet key r', a'⟩) : a = a' := by
  cases h <;> rfl

theorem Alike.lockstep {G : AgentOp → Prop} {α : Type} {p : AgentProg α} (h : Prog.Asks G p)
    (hG : ∀ o, G o → o.isVeiled = false) :
    Prog.Lockstep (AlikeOp V) (Alike V) Eq p p :=
  h.lockstep (fun o _ => .same o) fun o _ _ ho hevent => hevent.resp_eq (hG o ho)

end Alike

/-- Results the loop makes the same of: the planner's message and the sources kept. -/
structure Delivered (principal : Principal) (r r' : ToolResult) : Prop where
  message : toolMessage r = toolMessage r'
  sources : authorisedSources [r] principal = authorisedSources [r'] principal

section Results

variable {principal : Principal} {r r' : ToolResult}

theorem Delivered.refl (r : ToolResult) : Delivered principal r r := ⟨rfl, rfl⟩

theorem authorisedSources_of_hidden (h : Hidden principal r) :
    authorisedSources [r] principal = [] := by
  have hnone : r.sources.filter (mayCite principal) = [] := by
    rw [List.filter_eq_nil_iff]
    intro source hsource
    simp [h.denied source hsource]
  simp [authorisedSources, hnone]

theorem Veiled.identify (h : Veiled principal r r') (call : ToolCall) :
    Veiled principal (call.identify r) (call.identify r') := by
  obtain ⟨⟨hr, hr'⟩, hcontent⟩ := h
  exact ⟨⟨⟨hr.ok, hr.sources_ne, hr.denied⟩, ⟨hr'.ok, hr'.sources_ne, hr'.denied⟩⟩, hcontent⟩

theorem Veiled.unnamed (h : Veiled principal r r') :
    Veiled principal { r with callId := "" } { r' with callId := "" } := by
  obtain ⟨⟨hr, hr'⟩, hcontent⟩ := h
  exact ⟨⟨⟨hr.ok, hr.sources_ne, hr.denied⟩, ⟨hr'.ok, hr'.sources_ne, hr'.denied⟩⟩, hcontent⟩

/-- Once a result carries the identity of its call, only what is unseen differs. -/
theorem Veiled.delivered (h : Veiled principal r r') (call : ToolCall) :
    Delivered principal (call.identify r) (call.identify r') := by
  obtain ⟨⟨hr, hr'⟩, hcontent⟩ := h.identify call
  constructor
  · rw [toolMessage, toolMessage, hr.ok, hr'.ok, hcontent]
    rfl
  · rw [authorisedSources_of_hidden hr, authorisedSources_of_hidden hr']

theorem delivered_messages {rs rs' : List ToolResult}
    (h : List.Forall₂ (Delivered principal) rs rs') :
    rs.map toolMessage = rs'.map toolMessage := by
  induction h with
  | nil => rfl
  | cons hr _ ih => rw [List.map_cons, List.map_cons, hr.message, ih]

theorem delivered_sources {rs rs' : List ToolResult}
    (h : List.Forall₂ (Delivered principal) rs rs') :
    authorisedSources rs principal = authorisedSources rs' principal := by
  induction h with
  | nil => rfl
  | cons hr _ ih =>
      have hhead := hr.sources
      simp only [authorisedSources, List.flatMap_cons, List.flatMap_nil, List.append_nil] at *
      rw [hhead, ih]

end Results

section Tools

variable [Runtime] (registry : ToolRegistry) (allowEgress : Bool) (principal : Principal)
  (indexVersion : String) (call : ToolCall) (budget : BudgetTracker)

omit [Runtime] in
theorem cachedResult_lockstep (key : ToolKey) :
    Prog.Lockstep (AlikeOp (Veiled principal)) (Alike (Veiled principal))
      (Prog.Same (Option.Rel fun r r' => r = r' ∨ Veiled principal r r'))
      (cachedResult registry key) (cachedResult registry key) := by
  unfold cachedResult
  split_ifs
  · refine Prog.lockstep_perform_bind (.same _) ?_
    intro r r' hevent
    cases hevent with
    | same =>
        refine Prog.lockstep_pure ?_
        rcases r with exn | _ | result
        · exact rfl
        · exact .none
        · exact .some (Or.inl rfl)
    | cached _ h => exact Prog.lockstep_pure (.some (Or.inr h))
  · exact Prog.lockstep_pure .none

omit [Runtime] in
theorem storeResult_lockstep (key : ToolKey) {r r' : ToolResult}
    (h : r = r' ∨ Veiled principal r r') (hdelivered : Delivered principal r r') :
    Prog.Lockstep (AlikeOp (Veiled principal)) (Alike (Veiled principal))
      (Prog.Same (Delivered principal)) (storeResult registry key r)
      (storeResult registry key r') := by
  have hok : r.ok = r'.ok := by
    rcases h with rfl | ⟨⟨hr, hr'⟩, -⟩
    · rfl
    · rw [hr.ok, hr'.ok]
  unfold storeResult
  by_cases hstore : (registry.resultCache && r.ok) = true
  · rw [if_pos hstore, if_pos (hok ▸ hstore)]
    refine Prog.lockstep_perform_bind ?_ ?_
    · rcases h with rfl | h
      · exact .same _
      · exact .stored key h.unnamed
    · intro a a' hevent
      cases hevent.stored_eq
      refine Prog.lockstep_pure ?_
      cases a with
      | error exn => exact rfl
      | ok _ => exact hdelivered
  · rw [if_neg hstore, if_neg (hok ▸ hstore)]
    exact Prog.lockstep_pure hdelivered

theorem runChecked_lockstep (arguments : List (String × Json)) :
    Prog.Lockstep (AlikeOp (Veiled principal)) (Alike (Veiled principal))
      (Prog.Same (Delivered principal))
      (runChecked registry principal indexVersion call arguments budget)
      (runChecked registry principal indexVersion call arguments budget) := by
  refine (cachedResult_lockstep registry principal _).bind ?_
  intro found found' hfound
  rcases hfound.elim with ⟨a, a', rfl, rfl, ha⟩ | ⟨failure, rfl, rfl⟩
  · cases ha with
    | some h =>
        refine Prog.lockstep_pure ?_
        rcases h with rfl | h
        · exact Delivered.refl _
        · exact h.delivered call
    | none =>
        refine Prog.lockstep_perform_bind (.same _) ?_
        intro r r' hevent
        cases hevent with
        | same =>
            rcases r with (exn | _) | result
            · exact Prog.lockstep_pure (Delivered.refl _)
            · exact Prog.lockstep_pure rfl
            · exact storeResult_lockstep registry principal _ (Or.inl rfl) (Delivered.refl _)
        | returned _ _ _ _ h =>
            exact storeResult_lockstep registry principal _ (Or.inr (h.identify call))
              (h.delivered call)
  · exact Prog.lockstep_pure rfl

theorem execute_lockstep :
    Prog.Lockstep (AlikeOp (Veiled principal)) (Alike (Veiled principal))
      (Prog.Same (Delivered principal))
      (execute registry allowEgress principal indexVersion call budget)
      (execute registry allowEgress principal indexVersion call budget) := by
  refine Prog.lockstep_perform_bind (.same _) ?_
  intro _ _ _
  unfold dispatch
  split
  · exact Prog.lockstep_pure (Delivered.refl _)
  · rename_i tool _
    split_ifs
    · exact Prog.lockstep_pure (Delivered.refl _)
    · refine Prog.lockstep_perform_bind (.same _) ?_
      intro available available' hevent
      cases hevent.resp_eq rfl
      rcases available with exn | _ | _
      · exact Prog.lockstep_pure rfl
      · exact Prog.lockstep_pure (Delivered.refl _)
      · dsimp only
        split
        · split_ifs
          · exact Prog.lockstep_pure (Delivered.refl _)
          · exact Prog.lockstep_pure rfl
        · exact runChecked_lockstep registry principal indexVersion call budget _

end Tools

section Loop

variable [Runtime] (rt : AgentRuntime) (turn : Turn)

theorem runTools_lockstep (requested : List ToolCall) (budget : BudgetTracker) :
    Prog.Lockstep (AlikeOp (Veiled turn.principal)) (Alike (Veiled turn.principal))
      (Prog.Same (List.Forall₂ (Delivered turn.principal)))
      (runTools rt turn requested budget) (runTools rt turn requested budget) := by
  refine Prog.Lockstep.gather (.same _) (fun r r' hevent => hevent.resp_eq rfl) ?_
  rw [List.forall₂_map_left_iff, List.forall₂_map_right_iff]
  exact List.forall₂_same.mpr fun call _ =>
    execute_lockstep rt.tools rt.allowEgress turn.principal turn.indexVersion call budget

/-- States that differ in the rows of the trace only. -/
def Twin (s s' : LoopState) : Prop := ∃ steps, s' = { s with steps := steps }

/-- Ways out of the loop that differ in the rows of the trace only. -/
inductive ExitTwin : LoopExit → LoopExit → Prop
  | stopped {s s' : LoopState} (h : Twin s s') (stop : StopReason) :
      ExitTwin (.stopped s stop) (.stopped s' stop)
  | deadline {s s' : LoopState} (h : Twin s s') : ExitTwin (.deadline s) (.deadline s')
  | returned (answer answer' : AgentAnswer) : ExitTwin (.returned answer) (.returned answer')
  | raised {s s' : LoopState} (h : Twin s s') (exn : Exn) :
      ExitTwin (.raised s exn) (.raised s' exn)

omit [Runtime] in
theorem buildAnswer_lockstep {V : ToolResult → ToolResult → Prop} (e e' : TurnEnd)
    {base base' : Answer} (htrace : base.traceId = base'.traceId) (indexVersion : Option String)
    (fallbackUsed : Bool) (degradedReason : Option String) :
    Prog.Lockstep (AlikeOp V) (Alike V) (fun _ _ => True)
      (buildAnswer rt e base indexVersion fallbackUsed degradedReason)
      (buildAnswer rt e' base' indexVersion fallbackUsed degradedReason) := by
  have hquiet : ∀ o : AgentOp, o.isClosing = true → o.isVeiled = false := by
    intro o ho
    cases o <;> first | rfl | cases ho
  unfold buildAnswer
  rw [← htrace]
  refine (Alike.lockstep (traceIdOr_asks base.traceId) hquiet).bind fun _ _ _ => ?_
  refine (Alike.lockstep (versionOr_asks indexVersion) hquiet).bind fun _ _ _ => ?_
  exact Prog.lockstep_pure trivial

omit [Runtime] in
theorem fallbackAnswer_lockstep {V : ToolResult → ToolResult → Prop} (e e' : TurnEnd)
    (htrace : e.traceId = e'.traceId) (reason : String) (outcome : Except Exn Answer) :
    Prog.Lockstep (AlikeOp V) (Alike V) (fun _ _ => True) (fallbackAnswer rt e reason outcome)
      (fallbackAnswer rt e' reason outcome) := by
  cases outcome with
  | error exn => exact buildAnswer_lockstep rt e e' htrace none false (some reason)
  | ok fallback =>
      refine buildAnswer_lockstep rt _ _ ?_ (some fallback.indexVersion) true (some reason)
      rw [htrace]

theorem finalize_lockstep {V : ToolResult → ToolResult → Prop} {s s' : LoopState}
    (h : Twin s s') (stop : StopReason) :
    Prog.Lockstep (AlikeOp V) (Alike V) (fun _ _ => True) (finalize rt turn s stop)
      (finalize rt turn s' stop) := by
  obtain ⟨steps, rfl⟩ := h
  unfold finalize
  extract_lets authorised text citations e reason last _ _ _ e'
  split
  · exact buildAnswer_lockstep rt e e' rfl none false none
  · refine Prog.lockstep_perform_bind (.same _) ?_
    intro outcome outcome' hevent
    cases hevent.resp_eq rfl
    exact fallbackAnswer_lockstep rt { e with stop := last } { e' with stop := last } rfl reason
      outcome

theorem leave_lockstep {V : ToolResult → ToolResult → Prop} {exit exit' : LoopExit}
    (h : ExitTwin exit exit') :
    Prog.Lockstep (AlikeOp V) (Alike V) (fun _ _ => True) (leave rt turn exit)
      (leave rt turn exit') := by
  cases h with
  | stopped h stop => exact (finalize_lockstep rt turn h stop).bind fun _ _ _ => .ret trivial
  | deadline h => exact (finalize_lockstep rt turn h _).bind fun _ _ _ => .ret trivial
  | returned answer answer' => exact .ret trivial
  | raised h exn =>
      rw [leave, leave]
      split
      · exact (finalize_lockstep rt turn h _).bind fun _ _ _ => .ret trivial
      · exact .ret trivial

theorem act_lockstep (s : LoopState) (steps : List AgentStep) (c : ChatCompletion) :
    Prog.Lockstep (AlikeOp (Veiled turn.principal)) (Alike (Veiled turn.principal))
      (Sum.LiftRel Twin ExitTwin) (act rt turn s c) (act rt turn { s with steps := steps } c) := by
  unfold act
  split
  · exact .ret (.inr (.stopped ⟨steps, rfl⟩ _))
  · refine (runTools_lockstep rt turn _ _).bind ?_
    intro r r' hr
    rcases hr.elim with ⟨rs, rs', rfl, rfl, hrs⟩ | ⟨failure, rfl, rfl⟩
    · refine .ret (.inl ?_)
      rw [acted, acted, delivered_sources hrs, delivered_messages hrs]
      exact ⟨_, rfl⟩
    · cases failure with
      | deadline => exact .ret (.inr (.deadline ⟨steps, rfl⟩))
      | raised exn => exact .ret (.inr (.raised ⟨steps, rfl⟩ exn))

theorem evaluate_lockstep {V : ToolResult → ToolResult → Prop} (draft : String)
    (sources : List Source) :
    Prog.Lockstep (AlikeOp V) (Alike V) Eq (evaluate rt turn draft sources)
      (evaluate rt turn draft sources) := by
  refine Prog.lockstep_perform_bind (.same _) ?_
  intro r r' hevent
  cases hevent.resp_eq rfl
  cases r with
  | error failure => exact .ret rfl
  | ok judgement =>
      dsimp only
      split <;> exact .ret rfl

theorem critique_lockstep {V : ToolResult → ToolResult → Prop} (s : LoopState)
    (steps : List AgentStep) (c : ChatCompletion) (draft : String) :
    Prog.Lockstep (AlikeOp V) (Alike V) (Sum.LiftRel Twin ExitTwin)
      (critique rt turn s c draft) (critique rt turn { s with steps := steps } c draft) := by
  refine (evaluate_lockstep rt turn draft s.ledger.sources).bind ?_
  rintro r _ rfl
  rcases r with (exn | _) | ⟨verdict, usage⟩
  · exact .ret (.inr (.raised ⟨_, rfl⟩ exn))
  · exact .ret (.inr (.deadline ⟨_, rfl⟩))
  · dsimp only
    split
    · exact .ret (.inr (.stopped ⟨_, rfl⟩ _))
    · exact .ret (.inl ⟨_, rfl⟩)

theorem plan_lockstep {V : ToolResult → ToolResult → Prop} (s : LoopState)
    (steps : List AgentStep) (c : ChatCompletion) :
    Prog.Lockstep (AlikeOp V) (Alike V) (Sum.LiftRel Twin ExitTwin) (plan rt turn s c)
      (plan rt turn { s with steps := steps } c) := by
  unfold plan
  dsimp only
  by_cases hdraft : strip c.text = ""
  · rw [if_pos hdraft, if_pos hdraft]
    exact .ret (.inl ⟨_, rfl⟩)
  · rw [if_neg hdraft, if_neg hdraft]
    by_cases hopen : (drafted s c).tracker.canCritique = true
    · have hopen' : (drafted { s with steps := steps } c).tracker.canCritique = true := hopen
      rw [if_pos hopen, if_pos hopen']
      exact critique_lockstep rt turn (drafted s c) _ c (strip c.text)
    · have hopen' : ¬ (drafted { s with steps := steps } c).tracker.canCritique = true := hopen
      rw [if_neg hopen, if_neg hopen']
      exact .ret (.inr (.stopped ⟨_, rfl⟩ _))

omit [Runtime] in
theorem plannerFailed_lockstep {V : ToolResult → ToolResult → Prop} (s : LoopState)
    (steps : List AgentStep) :
    Prog.Lockstep (AlikeOp V) (Alike V) (Sum.LiftRel Twin ExitTwin) (plannerFailed rt turn s)
      (plannerFailed rt turn { s with steps := steps }) := by
  refine Prog.lockstep_perform_bind (.same _) ?_
  intro outcome outcome' hevent
  cases hevent.resp_eq rfl
  refine Prog.lockstep_perform_bind (.same _) ?_
  intro late late' hevent
  cases hevent.resp_eq rfl
  cases late with
  | true => exact .ret (.inr (.deadline ⟨_, rfl⟩))
  | false =>
      rw [if_neg Bool.false_ne_true, if_neg Bool.false_ne_true]
      have hends := fallbackAnswer_lockstep (V := V) rt (plannerFailedEnd rt turn s)
        (plannerFailedEnd rt turn { s with steps := steps }) rfl "llm_unavailable" outcome
      refine hends.bind ?_
      intro answer answer' _
      exact .ret (.inr (.returned answer answer'))

/-- A pass from states that differ in the rows of the trace only. -/
theorem iteration_lockstep {s s' : LoopState} (h : Twin s s') :
    Prog.Lockstep (AlikeOp (Veiled turn.principal)) (Alike (Veiled turn.principal))
      (Sum.LiftRel Twin ExitTwin) (iteration rt turn s) (iteration rt turn s') := by
  obtain ⟨steps, rfl⟩ := h
  refine Prog.Lockstep.bind (R := Eq) ?_ ?_
  · dsimp only
    rw [BudgetTracker.terminalStop]
    split
    · exact .ret rfl
    · refine Prog.lockstep_perform_bind (.same _) ?_
      intro elapsed elapsed' hevent
      cases hevent.resp_eq rfl
      exact .ret rfl
  · rintro stop _ rfl
    cases stop with
    | some stop => exact .ret (.inr (.stopped ⟨_, rfl⟩ stop))
    | none =>
        refine Prog.lockstep_perform_bind (.same _) ?_
        intro r r' hevent
        cases hevent.resp_eq rfl
        rcases r with (exn | _) | c
        · exact plannerFailed_lockstep rt turn (stepped s) steps
        · exact .ret (.inr (.deadline ⟨_, rfl⟩))
        · dsimp only
          split
          · exact act_lockstep rt turn (charged (stepped s) c) steps c
          · exact plan_lockstep rt turn (charged (stepped s) c) steps c

omit [Runtime] in
theorem specs_lockstep {V : ToolResult → ToolResult → Prop} :
    Prog.Lockstep (AlikeOp V) (Alike V) Eq (specs rt.tools rt.allowEgress)
      (specs rt.tools rt.allowEgress) := by
  refine Alike.lockstep (specs_asks rt.tools rt.allowEgress) fun o ho => ?_
  cases o <;> first | rfl | cases ho

theorem run_lockstep (question : String) (principal : Principal) (budget : Option Budget) :
    Prog.Lockstep (AlikeOp (Veiled principal)) (Alike (Veiled principal)) (fun _ _ => True)
      (run rt question principal budget) (run rt question principal budget) := by
  refine Prog.lockstep_perform_bind (.same _) ?_
  intro traceId traceId' hevent
  cases hevent.resp_eq rfl
  refine Prog.lockstep_perform_bind (.same _) ?_
  intro version version' hevent
  cases hevent.resp_eq rfl
  refine (specs_lockstep rt).bind ?_
  rintro listed _ rfl
  cases listed with
  | error exn => exact .ret trivial
  | ok toolSpecs =>
      refine Prog.Lockstep.bind (Prog.Lockstep.iterate (I := Twin) (Q := ExitTwin) ?_ _
        ⟨_, rfl⟩) ?_
      · intro s s' h
        exact iteration_lockstep rt ⟨question, principal, traceId, version, toolSpecs⟩ h
      · intro exit exit' hexit
        cases hexit with
        | none => exact .ret trivial
        | some h => exact (leave_lockstep rt _ h).bind fun _ _ _ => .ret trivial

end Loop

def searchTool : Tool := { name := "search", description := "", parameters := [] }

def searchRuntime : AgentRuntime := { tools := ⟨[searchTool], by simp, false⟩ }

def searchTurn : Turn := ⟨"q", ⟨"u", ∅, "a"⟩, "t", "v1", [⟨"search", "", []⟩]⟩

def searchCall : ToolCall := { id := "c1", name := "search" }

def searchCompletion : ChatCompletion where
  message := { role := .assistant, toolCalls := [searchCall] }

/-- The planner searches, and runs into the deadline when called again. -/
def searchAnswers (r : ToolResult) : (o : AgentOp) → AgentResp o
  | .startTrace => "t"
  | .currentTraceId => "t"
  | .activeIndexVersion => "v1"
  | .available _ _ => .ok true
  | .spec _ => .ok ⟨"search", "", []⟩
  | .elapsed => (0 : ℚ)
  | .chat messages _ => if messages.length = 2 then .ok searchCompletion else .error .deadline
  | .critique _ => .error .deadline
  | .schedule => []
  | .enter _ => ()
  | .runTool _ _ _ _ => .ok r
  | .toolCacheGet _ => .ok none
  | .toolCacheSet _ _ => .ok ()
  | .answer _ _ => .error (valueError "down")
  | .deadline => false

theorem searchAnswers_coupled {V : ToolResult → ToolResult → Prop} {r r' : ToolResult}
    (h : V r r') : Prog.Coupled (AlikeOp V) (Alike V) (fun _ => searchAnswers r)
      (fun _ => searchAnswers r') := by
  intro _ _ o o' _ ho
  cases ho with
  | same =>
      cases o with
      | runTool name arguments principal budget => exact .returned _ _ _ _ h
      | _ => exact .same _
  | stored key hstored => exact .stored key hstored _

/-- A result whose only source belongs to tenant "b". -/
def hiddenResult (content ref : String) : ToolResult where
  callId := "c1"
  name := "search"
  content := content
  sources := [{ kind := .chunk, ref := ref, acl := some { tenant := "b" } }]

theorem hiddenResult_hidden (content ref : String) :
    Hidden searchTurn.principal (hiddenResult content ref) := by
  refine ⟨rfl, by simp [hiddenResult], ?_⟩
  intro source hsource
  rw [List.mem_singleton.mp hsource]
  rfl

/-- The last message the planner was called with. -/
def lastSeen (t : List AgentEvent) : Option String :=
  ((plannerInputs t).getLast?.bind List.getLast?).map Message.content

section Turns

variable [Runtime]

/-- Where the tools' answers differ in unseen sources only, the planner and the critic
are called with the same messages. -/
theorem model_inputs_eq (rt : AgentRuntime) (question : String) (principal : Principal) (budget : Option Budget)
    (env env' : Prog.Env AgentOp AgentResp)
    (h : Prog.Coupled (AlikeOp (Veiled principal)) (Alike (Veiled principal)) env env') :
    plannerInputs ((run rt question principal budget).trace env)
        = plannerInputs ((run rt question principal budget).trace env')
      ∧ criticInputs ((run rt question principal budget).trace env)
        = criticInputs ((run rt question principal budget).trace env') := by
  have halike := (run_lockstep rt question principal budget).trace h
  exact ⟨Alike.plannerInputs_eq halike, Alike.criticInputs_eq halike⟩

end Turns

theorem model_inputs_eq_search : let _ := Runtime.ascii
    let turn := run searchRuntime searchTurn.question searchTurn.principal none
    plannerInputs (turn.trace fun _ => searchAnswers (hiddenResult "text" "x"))
        = plannerInputs (turn.trace fun _ => searchAnswers (hiddenResult "text" "y"))
      ∧ criticInputs (turn.trace fun _ => searchAnswers (hiddenResult "text" "x"))
        = criticInputs (turn.trace fun _ => searchAnswers (hiddenResult "text" "y")) := by
  intro _
  have hveiled : Veiled searchTurn.principal (hiddenResult "text" "x") (hiddenResult "text" "y") :=
    ⟨⟨hiddenResult_hidden _ _, hiddenResult_hidden _ _⟩, rfl⟩
  exact model_inputs_eq searchRuntime searchTurn.question searchTurn.principal none _ _
    (searchAnswers_coupled hveiled)

/-- The content of a result the principal may not see reaches the planner. -/
theorem hidden_content_reaches_planner : ¬ ∀ [Runtime] (rt : AgentRuntime) (question : String)
    (principal : Principal) (budget : Option Budget) (env env' : Prog.Env AgentOp AgentResp),
    Prog.Coupled (AlikeOp (Unseen principal)) (Alike (Unseen principal)) env env' →
      plannerInputs ((run rt question principal budget).trace env)
          = plannerInputs ((run rt question principal budget).trace env')
        ∧ criticInputs ((run rt question principal budget).trace env)
          = criticInputs ((run rt question principal budget).trace env') := by
  intro h
  let _ := Runtime.ascii
  have hcoupled := searchAnswers_coupled (V := Unseen searchTurn.principal)
    ⟨hiddenResult_hidden "one" "x", hiddenResult_hidden "two" "x"⟩
  have hsame := (h searchRuntime searchTurn.question searchTurn.principal none _ _ hcoupled).1
  have hone : lastSeen ((run searchRuntime searchTurn.question searchTurn.principal none).trace
      fun _ => searchAnswers (hiddenResult "one" "x")) = some "one" := by
    decide +kernel
  have htwo : lastSeen ((run searchRuntime searchTurn.question searchTurn.principal none).trace
      fun _ => searchAnswers (hiddenResult "two" "x")) = some "two" := by
    decide +kernel
  rw [lastSeen, hsame] at hone
  rw [lastSeen, hone] at htwo
  simp at htwo

end Rag
