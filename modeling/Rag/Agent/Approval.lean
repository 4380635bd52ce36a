import Rag.Agent.Success
import Rag.Agent.Caps
import Rag.Agent.Veil
import Rag.Lib.Strip

/-!
The critic's approval belongs to the answer that is returned.

`Pending` is what the loop keeps while it goes on: every verdict so far was a rejection,
each of them counted once as a critique round and once as a self-correction, and the ledger
holds only what the caller may cite. A pass that leaves with the critic's approval asked it
about the draft and the ledger it leaves with; one that leaves with the critic exhausted
leaves with a draft no critic call came after.
-/

namespace Rag

open Py Interaction AgentRuntime

/-- What a critic is asked about `draft` with `sources` on the ledger. -/
def judgeMessages (rt : AgentRuntime) (question draft : String) (sources : List Source) :
    List Message :=
  [{ role := .user,
     content := agentCritiquePrompt rt.criticPromptVersion question draft
      (renderSources sources rt.criticMaxEvidenceChars 500) }]

/-- The text of a draft as it is returned. -/
def AgentRuntime.shown [Runtime] (rt : AgentRuntime) (draft : String) : String :=
  if rt.piiRedactionEnabled then redactPii draft else draft

/-- A critic call, if it is one, was answered with a readable rejection. -/
def Rejection [Runtime] : AgentEvent → Prop
  | ⟨.critique _, r⟩ => ∃ judgement verdict, r = .ok judgement
      ∧ parseVerdict judgement.text = .ok verdict
      ∧ (verdict.sufficient && verdict.grounded) = false
  | _ => True

/-- A critic was asked about a draft the planner gave in `h`. -/
def AsksAbout [Runtime] (rt : AgentRuntime) (question : String) (h : List AgentEvent)
    (messages : List Message) : Prop :=
  ∃ request tools c sources, (⟨.chat request tools, .ok c⟩ : AgentEvent) ∈ h
    ∧ c.toolCalls = [] ∧ messages = judgeMessages rt question (strip c.text) sources

/-- Every critic call in `t` is about a draft the planner gave in `h`. -/
def JudgesDrafts [Runtime] (rt : AgentRuntime) (question : String) (h t : List AgentEvent) : Prop :=
  ∀ e ∈ t, ∀ messages, e.op = .critique messages → AsksAbout rt question h messages

theorem rejection_of_uncounted [Runtime] {t : List AgentEvent}
    (ht : calls AgentOp.isCritique t = 0) : ∀ e ∈ t, Rejection e := by
  rintro ⟨op, resp⟩ he
  have hother := List.countP_eq_zero.mp ht _ he
  cases op <;> trivial

theorem judgesDrafts_of_uncounted [Runtime] {rt : AgentRuntime} {question : String}
    {h t : List AgentEvent} (ht : calls AgentOp.isCritique t = 0) :
    JudgesDrafts rt question h t := by
  intro e he messages hop
  have hother := List.countP_eq_zero.mp ht e he
  rw [hop] at hother
  exact absurd rfl hother

theorem JudgesDrafts.mono [Runtime] {rt : AgentRuntime} {question : String}
    {h h' t : List AgentEvent} (hj : JudgesDrafts rt question h t) (hsub : h ⊆ h') :
    JudgesDrafts rt question h' t := by
  intro e he messages hop
  obtain ⟨request, tools, c, sources, hin, hcalls, hasked⟩ := hj e he messages hop
  exact ⟨request, tools, c, sources, hsub hin, hcalls, hasked⟩

theorem JudgesDrafts.append [Runtime] {rt : AgentRuntime} {question : String}
    {h t u : List AgentEvent} (ht : JudgesDrafts rt question h t) (hu : JudgesDrafts rt question h u) :
    JudgesDrafts rt question h (t ++ u) := by
  intro e he
  rcases List.mem_append.mp he with he | he
  · exact ht e he
  · exact hu e he

theorem silent_of_uncounted {t : List AgentEvent} (ht : calls AgentOp.isCritique t = 0) :
    ∀ e ∈ t, e.op.isCritique = false := by
  intro e he
  simpa using List.countP_eq_zero.mp ht e he

section Endings

variable {rt : AgentRuntime} {t : List AgentEvent} {answer : AgentAnswer}

theorem fallbackAnswer_stop {e : TurnEnd} {reason : String} {outcome : Except Exn Answer}
    (h : Prog.Runs (fallbackAnswer rt e reason outcome) t answer) :
    answer.stopReason = e.stop ∨ answer.stopReason = .fallbackPipeline := by
  cases outcome with
  | error exn =>
      obtain ⟨traceId, version, rfl⟩ := buildAnswer_runs h
      exact Or.inl rfl
  | ok fallback =>
      obtain ⟨traceId, version, rfl⟩ := buildAnswer_runs h
      exact Or.inr rfl

variable [Runtime] {turn : Turn} {s : LoopState} {stop : StopReason}

/-- An answer with an answerable stop reason is the draft `_finalize` was called with. -/
theorem finalize_answerable (h : Prog.Runs (finalize rt turn s stop) t answer)
    (hstop : answer.stopReason ∈ answerableStops) :
    answer.stopReason = stop ∧ answer.text = rt.shown (strip (s.draft.getD ""))
      ∧ answer.citations = resolveSourceCitations (strip (s.draft.getD ""))
        (s.ledger.sources.filter (mayCite turn.principal)) true
      ∧ answer.criticVerdict = s.verdict ∧ answer.selfCorrections = s.selfCorrections := by
  unfold finalize at h
  extract_lets authorised text citations e reason last at h
  split at h
  · rename_i hkept
    obtain ⟨traceId, version, rfl⟩ := buildAnswer_runs h
    exact ⟨rfl, rfl, if_neg hkept.1, rfl, rfl⟩
  · obtain ⟨outcome, u, rfl, hu⟩ := (Prog.runs_perform_bind_iff _ _ _ _).mp h
    have hlast : last ∉ answerableStops := by
      simp only [last]
      split_ifs with hspent
      · rw [hspent]
        decide
      · decide
    rcases fallbackAnswer_stop hu with hsame | hfallback
    · rw [hsame] at hstop
      exact absurd hstop hlast
    · rw [hfallback] at hstop
      exact absurd hstop (by decide)

end Endings

/-- The loop goes on after `h`: the critic has approved nothing yet. -/
structure Pending [Runtime] (rt : AgentRuntime) (turn : Turn) (budget : Budget)
    (h : List AgentEvent) (s : LoopState) : Prop where
  metered : Metered budget h s
  corrections : s.selfCorrections = s.tracker.critiqueRounds
  rejections : ∀ e ∈ h, Rejection e
  judged : JudgesDrafts rt turn.question h h
  citable : ∀ source ∈ s.ledger.sources, mayCite turn.principal source = true

/-- The last event of `h` is the critic's approval of the draft and the ledger in `s`. -/
structure Grounded [Runtime] (rt : AgentRuntime) (turn : Turn) (h : List AgentEvent)
    (s : LoopState) : Prop where
  events : ∃ before messages tools c judgement verdict,
    h = before ++ [⟨.chat messages tools, .ok c⟩,
      ⟨.critique (judgeMessages rt turn.question (strip c.text) s.ledger.sources), .ok judgement⟩]
    ∧ s.draft = some (strip c.text) ∧ s.verdict = some verdict
    ∧ parseVerdict judgement.text = .ok verdict
    ∧ verdict.sufficient = true ∧ verdict.grounded = true
  corrections : s.selfCorrections + 1 = calls AgentOp.isCritique h
  citable : ∀ source ∈ s.ledger.sources, mayCite turn.principal source = true

/-- The last event of `h` is the completion with the draft in `s`, and the critic has no
round left. -/
structure Unjudged [Runtime] (rt : AgentRuntime) (turn : Turn) (budget : Budget)
    (h : List AgentEvent) (s : LoopState) : Prop where
  events : ∃ before messages tools c, h = before ++ [⟨.chat messages tools, .ok c⟩]
    ∧ c.toolCalls = [] ∧ strip c.text ≠ "" ∧ s.draft = some (strip c.text)
    ∧ JudgesDrafts rt turn.question before before
  rounds : (calls AgentOp.isCritique h : ℤ) = max 0 budget.maxCritiqueRounds
  corrections : s.selfCorrections = calls AgentOp.isCritique h
  rejections : ∀ e ∈ h, Rejection e

/-- What an exit of the loop says about the events before it. -/
def Settled [Runtime] (rt : AgentRuntime) (turn : Turn) (budget : Budget) (h : List AgentEvent) :
    LoopExit → Prop
  | .returned answer => answer.stopReason ∉ answerableStops
  | .stopped s .criticGrounded => Grounded rt turn h s
  | .stopped s .criticExhausted => Unjudged rt turn budget h s
  | _ => True

section Passes

variable [Runtime] {rt : AgentRuntime} {turn : Turn} {budget : Budget} {h t : List AgentEvent}
  {s : LoopState}

omit [Runtime] in
theorem mayCite_of_authorised {results : List ToolResult} {principal : Principal} {source : Source}
    (h : source ∈ authorisedSources results principal) : mayCite principal source = true := by
  obtain ⟨result, -, hin⟩ := List.mem_flatMap.mp h
  split_ifs at hin with hok
  · exact (List.mem_filter.mp hin).2
  · cases hin

omit [Runtime] in
/-- Tools add to the ledger what the caller may cite. -/
theorem citable_acted {c : ChatCompletion} {requested : List ToolCall} {results : List ToolResult}
    (hs : ∀ source ∈ s.ledger.sources, mayCite turn.principal source = true) :
    ∀ source ∈ (acted turn s c requested results).ledger.sources,
      mayCite turn.principal source = true := by
  intro source hsource
  rw [EvidenceLedger.mem_sources] at hsource
  rcases EvidenceLedger.mem_add hsource with hnew | hold
  · exact mayCite_of_authorised hnew
  · exact hs source (EvidenceLedger.mem_sources.mpr hold)

theorem Pending.judged_append (hp : Pending rt turn budget h s)
    (ht : calls AgentOp.isCritique t = 0) : JudgesDrafts rt turn.question (h ++ t) (h ++ t) :=
  (hp.judged.mono (List.subset_append_left _ _)).append (judgesDrafts_of_uncounted ht)

theorem Pending.rejections_append (hp : Pending rt turn budget h s)
    (ht : calls AgentOp.isCritique t = 0) : ∀ e ∈ h ++ t, Rejection e := by
  intro e he
  rcases List.mem_append.mp he with he | he
  · exact hp.rejections e he
  · exact rejection_of_uncounted ht e he

theorem planned_pending {r : Except Failure ChatCompletion} {x : LoopState ⊕ LoopExit}
    {before : List AgentEvent} {messages : List Message} {tools : Option (List ToolSpec)}
    (hp : Pending rt turn budget (before ++ [⟨.chat messages tools, r⟩]) s)
    (hjudged : JudgesDrafts rt turn.question before before)
    (hleft : s.tracker.toolCalls < budget.maxToolCalls) (h : Planned rt turn s r t x) :
    Sum.elim (Pending rt turn budget (before ++ [⟨.chat messages tools, r⟩] ++ t))
      (Settled rt turn budget (before ++ [⟨.chat messages tools, r⟩] ++ t)) x := by
  have hmetered := (planned_metered hp.metered hleft h).2
  cases h with
  | deadline => trivial
  | fallbackLate exn outcome => trivial
  | fallback exn outcome u answer hu =>
      intro hstop
      rcases fallbackAnswer_stop hu with herror | hfallback
      · rw [herror] at hstop
        exact absurd (show StopReason.error ∈ answerableStops from hstop) (by decide)
      · rw [hfallback] at hstop
        exact absurd hstop (by decide)
  | toolsFailed c u failure hcalls hu => cases failure <;> trivial
  | acted c u results hcalls hu =>
      have hsilent := (runTools_calls hu).2.2
      exact ⟨hmetered _ rfl, hp.corrections, hp.rejections_append hsilent,
        hp.judged_append hsilent, citable_acted hp.citable⟩
  | nudged c hcalls hdraft =>
      exact ⟨hmetered _ rfl, hp.corrections, hp.rejections_append rfl, hp.judged_append rfl,
        hp.citable⟩
  | exhausted c hcalls hdraft hspent =>
      rw [List.append_nil]
      have hcritiques := hp.metered.critiques
      have hwithin := hp.metered.within.critiques
      have hclosed : budget.maxCritiqueRounds ≤ s.tracker.critiqueRounds := by
        rw [← hp.metered.budget_eq]
        simpa [BudgetTracker.canCritique, drafted, charged] using hspent
      exact ⟨⟨before, messages, tools, c, rfl, hcalls, hdraft, rfl, hjudged⟩, by omega,
        hp.corrections.trans hcritiques.symm, hp.rejections⟩
  | criticFailed c hcalls hdraft hopen failure => cases failure <;> trivial
  | unreadable c hcalls hdraft hopen judgement exn hparse => trivial
  | approved c hcalls hdraft hopen judgement verdict hparse hverdict =>
      obtain ⟨hsufficient, hgrounded⟩ := Bool.and_eq_true_iff.mp hverdict
      refine ⟨⟨before, messages, tools, c, judgement, verdict, ?_, rfl, rfl, hparse, hsufficient,
        hgrounded⟩, ?_, hp.citable⟩
      · rw [List.append_assoc]
        rfl
      · have hcritiques := hp.metered.critiques
        have hcorrections := hp.corrections
        simp only [calls_append] at hcritiques
        change s.selfCorrections + 1 = _
        simp only [calls_append, calls_cons, calls_nil, AgentOp.isCritique]
        simp only [calls_cons, calls_nil, AgentOp.isCritique] at hcritiques
        push_cast at hcritiques ⊢
        simp at hcritiques ⊢
        omega
  | rejected c hcalls hdraft hopen judgement verdict hparse hverdict =>
      refine ⟨hmetered _ rfl, ?_, ?_, ?_, hp.citable⟩
      · change s.selfCorrections + 1 = s.tracker.critiqueRounds + 1
        rw [hp.corrections]
      · intro e he
        rcases List.mem_append.mp he with he | he
        · exact hp.rejections e he
        · rw [List.mem_singleton.mp he]
          exact ⟨judgement, verdict, rfl, hparse, hverdict⟩
      · refine (hp.judged.mono (List.subset_append_left _ _)).append ?_
        intro e he asked hop
        rw [List.mem_singleton.mp he] at hop
        cases hop
        exact ⟨messages, tools, c, s.ledger.sources, by simp, hcalls, rfl⟩

theorem pass_pending {x : LoopState ⊕ LoopExit} (hp : Pending rt turn budget h s)
    (hpass : Pass rt turn s t x) :
    Sum.elim (Pending rt turn budget (h ++ t)) (Settled rt turn budget (h ++ t)) x := by
  cases hpass with
  | spent hspent => trivial
  | late elapsed hopen hlate => trivial
  | planned elapsed r u x hopen htime hplanned =>
      obtain ⟨hsteps, htools, -, -⟩ := (BudgetTracker.not_spent_iff _).mp hopen
      rw [hp.metered.budget_eq] at hsteps htools
      have hasked : Pending rt turn budget
          (h ++ [⟨.elapsed, elapsed⟩] ++ [⟨.chat s.messages (offered turn), r⟩]) (stepped s) := by
        rw [List.append_assoc]
        exact ⟨hp.metered.chat hsteps elapsed s.messages (offered turn) r, hp.corrections,
          hp.rejections_append rfl, hp.judged_append rfl, hp.citable⟩
      have hafter := planned_pending hasked (hp.judged_append rfl) htools hplanned
      simpa using hafter

theorem loop_settled {exit : LoopExit} {n : ℕ}
    (hloop : Prog.Runs (Prog.iterate (iteration rt turn) n (start rt turn budget)) t (some exit)) :
    Settled rt turn budget t exit := by
  have hstart : Pending rt turn budget [] (start rt turn budget) :=
    ⟨start_metered, rfl, by simp, by simp [JudgesDrafts], by
      intro source hsource
      rw [EvidenceLedger.mem_sources] at hsource
      cases hsource⟩
  obtain ⟨t₁, s, t₂, rfl, hp, hlast⟩ := Prog.runs_iterate (I := Pending rt turn budget)
    (fun h s t s' hp ht => pass_pending hp (iteration_pass ht)) hstart hloop
  exact pass_pending hp (iteration_pass hlast)

end Passes

/-- The answer of the turn in `t` is the draft that its last critic call approved, with the
ledger in `s` before it. -/
structure Approved [Runtime] (rt : AgentRuntime) (question : String) (t : List AgentEvent)
    (answer : AgentAnswer) (s : LoopState) (c judgement : ChatCompletion) (verdict : Verdict)
    (before after : List AgentEvent) : Prop where
  events : t = before
    ++ ⟨.critique (judgeMessages rt question (strip c.text) s.ledger.sources), .ok judgement⟩
    :: after
  planned : ∃ messages tools, before.getLast? = some ⟨.chat messages tools, .ok c⟩
  last : ∀ e ∈ after, e.op.isCritique = false
  text : answer.text = rt.shown (strip c.text)
  citations : answer.citations = resolveSourceCitations (strip c.text) s.ledger.sources true
  parsed : parseVerdict judgement.text = .ok verdict
  sufficient : verdict.sufficient = true
  grounded : verdict.grounded = true
  returned : answer.criticVerdict = some verdict
  corrections : answer.selfCorrections + 1 = calls AgentOp.isCritique t

/-- The answer of the turn in `t` is the draft of its last completion, which came after every
critic call. All of these rejected, and no round is left. -/
structure Exhausted [Runtime] (rt : AgentRuntime) (question : String) (maxRounds : ℤ)
    (t : List AgentEvent) (answer : AgentAnswer) (messages : List Message) (tools : Option (List ToolSpec))
    (c : ChatCompletion) (before after : List AgentEvent) : Prop where
  events : t = before ++ ⟨.chat messages tools, .ok c⟩ :: after
  drafted : c.toolCalls = [] ∧ strip c.text ≠ ""
  judged : JudgesDrafts rt question before before
  unjudged : ∀ e ∈ after, e.op.isCritique = false
  unplanned : ∀ e ∈ after, e.op.isChat = false
  text : answer.text = rt.shown (strip c.text)
  rejections : ∀ e ∈ t, Rejection e
  rounds : (calls AgentOp.isCritique t : ℤ) = max 0 maxRounds
  corrections : answer.selfCorrections = max 0 maxRounds

section Turns

variable [Runtime] {rt : AgentRuntime} {question : String} {principal : Principal}
  {budget : Option Budget} {t : List AgentEvent} {answer : AgentAnswer} {exit : LoopExit}

/-- An answer with an answerable stop reason left the loop with it. -/
theorem left_answerable (h : ExitedBy rt question principal budget exit t (.ok answer))
    (hstop : answer.stopReason ∈ answerableStops) :
    ∃ turn pre loop post s, exit = .stopped s answer.stopReason
      ∧ Opening rt question principal turn pre
      ∧ Settled rt turn ((budget.getD rt.budget).clamp rt.budget) loop exit
      ∧ Prog.Runs (finalize rt turn s answer.stopReason) post answer
      ∧ Uncounted pre ∧ Uncounted post ∧ t = pre ++ (loop ++ post) := by
  obtain ⟨turn, pre, loop, post, hopen, hloop, hleave, rfl⟩ := h
  have hsettled := loop_settled hloop
  have hend := uncounted_of_ending ((leave_asks rt turn exit).steps hleave)
  have hcases := leave_runs hleave
  have hlate : ∀ s, Prog.Runs (finalize rt turn s .budgetExhausted) post answer → False := by
    intro s hr
    rw [(finalize_answerable hr hstop).1] at hstop
    exact absurd hstop (by decide)
  cases exit with
  | stopped s stop =>
      obtain ⟨_, ⟨⟩, hr⟩ := hcases
      obtain rfl := (finalize_answerable hr hstop).1
      exact ⟨turn, pre, loop, post, s, rfl, hopen, hsettled, hr, hopen.uncounted, hend, rfl⟩
  | deadline s =>
      obtain ⟨_, ⟨⟩, hr⟩ := hcases
      exact absurd hr (hlate s)
  | raised s exn =>
      rcases hcases with ⟨-, _, ⟨⟩, hr⟩ | ⟨-, -, ⟨⟩⟩
      exact absurd hr (hlate s)
  | returned _ =>
      obtain ⟨rfl, ⟨⟩⟩ := hcases
      exact absurd hstop hsettled

theorem approved_of_left (h : ExitedBy rt question principal budget exit t (.ok answer))
    (hstop : answer.stopReason = .criticGrounded) :
    ∃ s c judgement verdict before after, exit = .stopped s .criticGrounded
      ∧ Approved rt question t answer s c judgement verdict before after := by
  obtain ⟨turn, pre, loop, post, s, rfl, hopen, hsettled, hr, hpre, hpost, rfl⟩ :=
    left_answerable h (by rw [hstop]; decide)
  obtain ⟨-, htext, hcitations, hverdict, hcorrections⟩ :=
    finalize_answerable hr (by rw [hstop]; decide)
  rw [hstop] at hsettled
  obtain ⟨before, messages, tools, c, judgement, verdict, rfl, hdraft, hkept, hparse, hsufficient,
    hgrounded⟩ := hsettled.events
  have hshown : strip (s.draft.getD "") = strip c.text := by
    rw [hdraft, Option.getD_some, strip_strip]
  rw [hshown] at htext hcitations
  rw [List.filter_eq_self.mpr hsettled.citable] at hcitations
  refine ⟨s, c, judgement, verdict, pre ++ (before ++ [⟨.chat messages tools, .ok c⟩]), post, by
    rw [hstop], ?_⟩
  constructor
  · rw [hopen.question_eq]
    simp
  · exact ⟨messages, tools, by simp⟩
  · exact silent_of_uncounted hpost.critiques
  · exact htext
  · exact hcitations
  · exact hparse
  · exact hsufficient
  · exact hgrounded
  · rw [hverdict, hkept]
  · rw [hcorrections, hsettled.corrections]
    simp [hpre.critiques, hpost.critiques]

theorem exhausted_of_left (h : ExitedBy rt question principal budget exit t (.ok answer))
    (hstop : answer.stopReason = .criticExhausted) :
    ∃ messages tools c before after,
      Exhausted rt question ((budget.getD rt.budget).clamp rt.budget).maxCritiqueRounds t answer messages
        tools c before after := by
  obtain ⟨turn, pre, loop, post, s, rfl, hopen, hsettled, hr, hpre, hpost, rfl⟩ :=
    left_answerable h (by rw [hstop]; decide)
  obtain ⟨-, htext, -, -, hcorrections⟩ := finalize_answerable hr (by rw [hstop]; decide)
  rw [hstop] at hsettled
  obtain ⟨before, messages, tools, c, rfl, hcalls, hne, hdraft, hjudged⟩ := hsettled.events
  have hshown : strip (s.draft.getD "") = strip c.text := by
    rw [hdraft, Option.getD_some, strip_strip]
  rw [hshown] at htext
  have hrounds := hsettled.rounds
  refine ⟨messages, tools, c, pre ++ before, post, ?_⟩
  constructor
  · simp
  · exact ⟨hcalls, hne⟩
  · rw [← hopen.question_eq]
    refine (judgesDrafts_of_uncounted hpre.critiques).append ?_
    exact hjudged.mono (List.subset_append_right _ _)
  · exact silent_of_uncounted hpost.critiques
  · intro e he
    simpa using List.countP_eq_zero.mp hpost.chats e he
  · exact htext
  · intro e he
    rcases List.mem_append.mp he with he | he
    · exact rejection_of_uncounted hpre.critiques e he
    · rcases List.mem_append.mp he with he | he
      · exact hsettled.rejections e he
      · exact rejection_of_uncounted hpost.critiques e he
  · rw [calls_append, calls_append, hpre.critiques, hpost.critiques, ← hrounds]
    simp
  · rw [hcorrections, hsettled.corrections, hrounds]

/-- For every turn: an answer with the critic's approval is the draft, with the ledger, that
the last critic call was asked about, and carries its verdict. An answer past the critic's
last round is a draft that came after every critic call, all of which rejected. -/
theorem approval_pairs (rt : AgentRuntime) (question : String) (principal : Principal)
    (budget : Option Budget) (env : Prog.Env AgentOp AgentResp) (answer : AgentAnswer)
    (h : (run rt question principal budget).result env = some (.ok answer)) :
    let t := (run rt question principal budget).trace env
    (answer.stopReason = .criticGrounded → ∃ s c judgement verdict before after,
      ExitedBy rt question principal budget (.stopped s .criticGrounded) t (.ok answer)
        ∧ Approved rt question t answer s c judgement verdict before after)
    ∧ (answer.stopReason = .criticExhausted → ∃ messages tools c before after,
      Exhausted rt question ((budget.getD rt.budget).clamp rt.budget).maxCritiqueRounds t answer messages
        tools c before after) := by
  intro t
  have hruns := Prog.runs_trace env (run rt question principal budget)
  rw [h] at hruns
  obtain ⟨exit, hleft⟩ := run_left hruns
  constructor
  · intro hstop
    obtain ⟨s, c, judgement, verdict, before, after, rfl, happroved⟩ :=
      approved_of_left hleft hstop
    exact ⟨s, c, judgement, verdict, before, after, hleft, happroved⟩
  · intro hstop
    exact exhausted_of_left hleft hstop

end Turns

def foundResult : ToolResult where
  callId := "c1"
  name := "search"
  content := "found"
  sources := [{ kind := .chunk, ref := "doc1" }]

def foundDraft : ChatCompletion := completionOf "Found in [doc1]." 1

/-- Every critic call is answered with `verdict`. -/
def draftAnswers (verdict : String) : (o : AgentOp) → AgentResp o
  | .chat messages _ => .ok (if messages.length = 2 then searchCompletion else foundDraft)
  | .critique _ => .ok (completionOf verdict 1)
  | o => searchAnswers foundResult o

def stopOf : Option (Except Exn AgentAnswer) → Option StopReason
  | some (.ok answer) => some answer.stopReason
  | _ => none

theorem answered_of_stopOf {r : Option (Except Exn AgentAnswer)} {stop : StopReason}
    (h : stopOf r = some stop) : ∃ answer, r = some (.ok answer) ∧ answer.stopReason = stop := by
  rcases r with _ | exn | answer
  · cases h
  · cases h
  · cases h
    exact ⟨answer, rfl, rfl⟩

theorem approval_pairs_found : let _ := Runtime.ascii
    let turn := run searchRuntime searchTurn.question searchTurn.principal none
    let env : Prog.Env AgentOp AgentResp := fun _ =>
      draftAnswers "\x7b\"sufficient\": true, \"grounded\": true\x7d"
    ∃ answer, turn.result env = some (.ok answer) ∧ ∃ s c judgement verdict before after,
      Approved searchRuntime searchTurn.question (turn.trace env) answer s c judgement verdict
        before after := by
  intro _ turn env
  have hstop : stopOf (turn.result env) = some .criticGrounded := by decide +kernel
  obtain ⟨answer, hanswer, hgrounded⟩ := answered_of_stopOf hstop
  obtain ⟨s, c, judgement, verdict, before, after, -, happroved⟩ :=
    (approval_pairs searchRuntime searchTurn.question searchTurn.principal none env answer
      hanswer).1 hgrounded
  exact ⟨answer, hanswer, s, c, judgement, verdict, before, after, happroved⟩

/-- The planner repeats a draft the critic rejected, and the repetition is returned. -/
theorem rejected_draft_returned : ¬ ∀ (_ : Runtime) (rt : AgentRuntime) (question : String)
    (principal : Principal) (budget : Option Budget) (env : Prog.Env AgentOp AgentResp)
    (answer : AgentAnswer) (before after : List AgentEvent) (messages : List Message)
    (tools : Option (List ToolSpec)) (c : ChatCompletion),
    (run rt question principal budget).result env = some (.ok answer) →
    answer.stopReason = .criticExhausted →
    (run rt question principal budget).trace env = before ++ ⟨.chat messages tools, .ok c⟩ :: after →
    (∀ e ∈ after, e.op.isChat = false) →
    ∀ e ∈ (run rt question principal budget).trace env, ∀ sources,
      e.op ≠ .critique (judgeMessages rt question (strip c.text) sources) := by
  intro h
  let _ := Runtime.ascii
  let turn := run searchRuntime searchTurn.question searchTurn.principal none
  let env : Prog.Env AgentOp AgentResp := fun _ => draftAnswers "no"
  have hstop : stopOf (turn.result env) = some .criticExhausted := by decide +kernel
  obtain ⟨answer, hanswer, hexhausted⟩ := answered_of_stopOf hstop
  have hruns := Prog.runs_trace env turn
  rw [hanswer] at hruns
  obtain ⟨exit, hleft⟩ := run_left hruns
  obtain ⟨messages, tools, c, before, after, hlast⟩ := exhausted_of_left hleft hexhausted
  -- any completion without tool calls is the one draft
  have hdraft : ∀ request offered c, (⟨.chat request offered, .ok c⟩ : AgentEvent) ∈ turn.trace env →
      c.toolCalls = [] → c = foundDraft := by
    intro request offered c hin hcalls
    have hevent := Prog.mem_trace hin
    simp only [draftAnswers, Event.mk.injEq, heq_eq_eq, true_and, Except.ok.injEq] at hevent
    split_ifs at hevent
    · rw [hevent] at hcalls
      cases hcalls
    · exact hevent
  have hrounds : (calls AgentOp.isCritique (turn.trace env) : ℤ) = 2 := hlast.rounds
  obtain ⟨e, he, hcritique⟩ := List.countP_pos_iff.mp
    (show 0 < calls AgentOp.isCritique (turn.trace env) by omega)
  have hbefore : e ∈ before := by
    rw [hlast.events] at he
    rcases List.mem_append.mp he with he | he
    · exact he
    · rcases List.mem_cons.mp he with rfl | he
      · cases hcritique
      · rw [hlast.unjudged e he] at hcritique
        cases hcritique
  obtain ⟨asked, hasked⟩ : ∃ asked, e.op = .critique asked := by
    rcases e with ⟨op, resp⟩
    cases op <;> first | exact ⟨_, rfl⟩ | cases hcritique
  obtain ⟨request, offered, c', sources, hin, hcalls, rfl⟩ := hlast.judged e hbefore asked hasked
  have hsame : c = c' := by
    rw [hdraft request offered c' (by rw [hlast.events]; exact List.mem_append_left _ hin) hcalls]
    exact hdraft messages tools c (by rw [hlast.events]; simp) hlast.drafted.1
  subst hsame
  exact h _ searchRuntime searchTurn.question searchTurn.principal none env answer before after
    messages tools c hanswer hexhausted hlast.events hlast.unplanned e he sources hasked

end Rag
