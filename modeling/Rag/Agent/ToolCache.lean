import Rag.Agent.Transcript
import Rag.Api.Query
import Rag.Cache.Memory
import Rag.Lib.Pool

/-!
`ToolResultCache` in front of the tools.

While no index is promoted a tool gives the same result for the same key, and then the cache
saves work and nothing else: whatever calls run interleaved over one cache, and whenever it
forgets an entry, every call ends as it would without a cache, up to what JSON keeps of a
result.
-/

namespace Interaction.Prog

variable {Op : Type} {Resp : Op → Type} {α : Type}

/-- Answers that do not look back make the rest of a program a program of its own. -/
theorem result_call (f : (o : Op) → Resp o) (o : Op) (k : Resp o → Prog Op Resp α) :
    Prog.result (fun _ => f) (.call o k) = Prog.result (fun _ => f) (k (f o)) := by
  have hblind : ∀ (p : Prog Op Resp α) (h : List (Event Op Resp)),
      (p.exec (fun _ => f) h).2 = (p.exec (fun _ => f) []).2 := by
    intro p
    induction p with
    | ret a => exact fun _ => rfl
    | call o k ih =>
        intro h
        exact (ih (f o) _).trans (ih (f o) _).symm
  show (Prog.exec (fun _ => f) (k (f o)) ([] ++ [⟨o, f o⟩])).2 = _
  exact hblind _ _

end Interaction.Prog

namespace Rag

open Py Interaction

/-- Whether a tool is available, and what it gives for its arguments and a principal. -/
structure SteadyTools where
  available : String → Except Exn Bool
  run : String → List (String × Json) → Principal → Except Exn ToolResult

namespace SteadyTools

variable (tools : SteadyTools)

/-- The answers of a deployment without a result cache. `execute` asks for no more than the
tools and their availability. -/
def answer : (o : AgentOp) → AgentResp o
  | .available tool _ => tools.available tool
  | .runTool tool arguments principal _ => (tools.run tool arguments principal).mapError .raised
  | .toolCacheGet _ => .ok none
  | .toolCacheSet _ _ => .ok ()
  | .enter _ => ()
  | .startTrace => ""
  | .currentTraceId => ""
  | .activeIndexVersion => ""
  | .spec _ => .ok ⟨"", "", []⟩
  | .elapsed => 0
  | .chat _ _ => .error .deadline
  | .critique _ => .error .deadline
  | .schedule => []
  | .answer _ _ => .ok { text := "" }
  | .deadline => false

variable [Runtime]

/-- Calls with one cache key have one result. -/
def KeyedBy (callers : Set Principal) (indexVersion : String) : Prop :=
  ∀ tool arguments arguments' principal principal', principal ∈ callers → principal' ∈ callers →
    toolKey tool arguments principal indexVersion = toolKey tool arguments' principal' indexVersion →
    tools.run tool arguments principal = tools.run tool arguments' principal'

/-- What the cache may hold under a key: what the tool gave for it, without a call id. -/
def Memo (callers : Set Principal) (indexVersion : String) (key : ToolKey) (result : ToolResult) :
    Prop :=
  ∃ tool arguments principal given, principal ∈ callers
    ∧ key = toolKey tool arguments principal indexVersion
    ∧ tools.run tool arguments principal = .ok given
    ∧ result = { given with callId := "", name := tool }

end SteadyTools

/-- A call of `ToolRegistry.execute`. -/
structure ToolRequest where
  principal : Principal
  call : ToolCall
  budget : BudgetTracker

section Calls

variable [Runtime] (tools : SteadyTools) (registry : ToolRegistry) (allowEgress : Bool)
  (indexVersion : String)

def ToolRequest.program (request : ToolRequest) : AgentProg (Except Failure ToolResult) :=
  execute registry allowEgress request.principal indexVersion request.call request.budget

/-- How the call ends without a cache. -/
def ToolRequest.plain (request : ToolRequest) : Except Failure ToolResult :=
  Prog.result (fun _ => tools.answer)
    (request.program { registry with resultCache := false } allowEgress indexVersion)

/-- How the cache and the tools answer. A run of a tool can be ended by the deadline of its
turn. -/
def ToolCell (s : MemoryCache ToolKey ToolResult) (_ : List AgentEvent) :
    (o : AgentOp) → AgentResp o → MemoryCache ToolKey ToolResult → Prop
  | .available tool _, r, s' => r = tools.available tool ∧ s' = s
  | .runTool tool arguments principal _, r, s' =>
      (r = .error .deadline ∨ r = (tools.run tool arguments principal).mapError .raised) ∧ s' = s
  | .toolCacheGet key, r, s' =>
      ∃ now, r = .ok ((s.get now key).1.map ToolResult.reloaded) ∧ s' = (s.get now key).2
  | .toolCacheSet key result, r, s' =>
      r = .ok () ∧ ∃ now ttlSeconds, s' = s.set now key result ttlSeconds
  | _, _, s' => s' = s

/-- Entries may disappear at any time. -/
def Forgets (s s' : MemoryCache ToolKey ToolResult) : Prop :=
  ∀ key entry, s'.store.get? key = some entry → s.store.get? key = some entry

/-- The outcome is the one without a cache, or its JSON round trip. -/
def Agrees (outcome plain : Except Failure ToolResult) : Prop :=
  outcome = plain ∨ outcome = plain.map ToolResult.reloaded

section Assume

variable (callers : Set Principal)

def CacheFits : (o : AgentOp) → AgentResp o → Prop
  | .available tool _, r => r = tools.available tool
  | .runTool tool arguments principal _, r =>
      r = .error .deadline ∨ r = (tools.run tool arguments principal).mapError .raised
  | .toolCacheGet key, r => r = .ok none
      ∨ ∃ result, tools.Memo callers indexVersion key result ∧ r = .ok (some result.reloaded)
  | .toolCacheSet _ _, r => r = .ok ()
  | _, _ => True

def StoresMemo : AgentOp → Prop
  | .toolCacheSet key result => tools.Memo callers indexVersion key result
  | _ => True

end Assume

/-- How a call ends that has passed every check. -/
def ToolCall.given (call : ToolCall) (arguments : List (String × Json)) (principal : Principal) :
    ToolResult :=
  match tools.run call.name arguments principal with
  | .error exn => call.failed (exn.name ++ ": " ++ exn.text)
  | .ok result => call.identify result

variable {tools registry allowEgress indexVersion} {callers : Set Principal}

omit [Runtime] in
theorem identify_reloaded (call : ToolCall) (result : ToolResult) :
    call.identify { result with callId := "", name := call.name }.reloaded
      = (call.identify result).reloaded := rfl

/-- A cached result is the one the tool gave for another call with this key. -/
theorem memo_given (hkeys : tools.KeyedBy callers indexVersion) {call : ToolCall}
    {arguments : List (String × Json)} {principal : Principal} (hcaller : principal ∈ callers)
    {result : ToolResult}
    (h : tools.Memo callers indexVersion (toolKey call.name arguments principal indexVersion)
      result) :
    call.identify result.reloaded = (call.given tools arguments principal).reloaded := by
  obtain ⟨tool, arguments', principal', given, hcaller', hkey, hrun, rfl⟩ := h
  have htool : call.name = tool := congrArg ToolKey.tool hkey
  subst htool
  have hsame := hkeys _ _ _ _ _ hcaller hcaller' hkey
  rw [ToolCall.given, hsame, hrun]
  exact identify_reloaded call given

/-- A tool that is run gives what it gives without a cache, and its result is stored as such. -/
theorem runFresh_agrees {principal : Principal} (hcaller : principal ∈ callers) (call : ToolCall)
    (arguments : List (String × Json)) (budget : BudgetTracker) :
    Prog.Spec (CacheFits tools indexVersion callers) (StoresMemo tools indexVersion callers)
      (runFresh registry principal call arguments budget
        (toolKey call.name arguments principal indexVersion))
      (fun a => a = .error .deadline
        ∨ Agrees a (.ok (call.given tools arguments principal))) := by
  refine ⟨trivial, ?_⟩
  rintro r (rfl | rfl)
  · exact Or.inl rfl
  · cases houtcome : tools.run call.name arguments principal with
    | error exn =>
        apply Or.inr
        apply Or.inl
        rw [ToolCall.given, houtcome]
    | ok given =>
        have hgiven : call.given tools arguments principal = call.identify given := by
          rw [ToolCall.given, houtcome]
        show Prog.Spec _ _ (storeResult registry _ (call.identify given)) _
        rw [storeResult, hgiven]
        split_ifs with hstore
        · refine ⟨⟨call.name, arguments, principal, given, hcaller, rfl, houtcome, rfl⟩, ?_⟩
          rintro r rfl
          exact Or.inr (Or.inl rfl)
        · exact Or.inr (Or.inl rfl)

theorem runChecked_agrees (hkeys : tools.KeyedBy callers indexVersion) {principal : Principal}
    (hcaller : principal ∈ callers) (call : ToolCall) (arguments : List (String × Json))
    (budget : BudgetTracker) :
    Prog.Spec (CacheFits tools indexVersion callers) (StoresMemo tools indexVersion callers)
      (runChecked registry principal indexVersion call arguments budget)
      (fun a => a = .error .deadline
        ∨ Agrees a (.ok (call.given tools arguments principal))) := by
  rw [runChecked, cachedResult]
  split_ifs with hcache
  · refine ⟨trivial, ?_⟩
    rintro r (rfl | ⟨result, hmemo, rfl⟩)
    · exact runFresh_agrees hcaller call arguments budget
    · apply Or.inr
      apply Or.inr
      exact congrArg Except.ok (memo_given hkeys hcaller hmemo)
  · exact runFresh_agrees hcaller call arguments budget

/-- Without a cache the tool is run. -/
theorem runChecked_plain (principal : Principal) (call : ToolCall)
    (arguments : List (String × Json)) (budget : BudgetTracker) :
    Prog.result (fun _ => tools.answer)
      (runChecked { registry with resultCache := false } principal indexVersion call arguments
        budget) = .ok (call.given tools arguments principal) := by
  have hfresh : runChecked { registry with resultCache := false } principal indexVersion call
      arguments budget = runFresh { registry with resultCache := false } principal call arguments
        budget (toolKey call.name arguments principal indexVersion) := rfl
  have hanswer : tools.answer (.runTool call.name arguments principal budget)
      = (tools.run call.name arguments principal).mapError .raised := rfl
  rw [hfresh, runFresh, ToolCall.given]
  simp only [AgentOp.ask, Prog.perform_bind, Prog.result_call, hanswer]
  cases tools.run call.name arguments principal <;> rfl

/-- Every branch of `execute` but the last fails the call with or without a cache. -/
theorem execute_agrees (hkeys : tools.KeyedBy callers indexVersion) (request : ToolRequest)
    (hcaller : request.principal ∈ callers) :
    Prog.Spec (CacheFits tools indexVersion callers) (StoresMemo tools indexVersion callers)
      (request.program registry allowEgress indexVersion)
      (fun a => a = .error .deadline
        ∨ Agrees a (request.plain tools registry allowEgress indexVersion)) := by
  refine ⟨trivial, ?_⟩
  rintro - -
  show Prog.Spec _ _ (dispatch registry allowEgress request.principal indexVersion request.call
    request.budget) _
  have hplain : request.plain tools registry allowEgress indexVersion
      = Prog.result (fun _ => tools.answer)
        (dispatch { registry with resultCache := false } allowEgress request.principal
          indexVersion request.call request.budget) := Prog.result_call _ _ _
  rw [hplain, dispatch, dispatch]
  have hget : ({ registry with resultCache := false } : ToolRegistry).get request.call.name
      = registry.get request.call.name := rfl
  rw [hget]
  cases hfound : registry.get request.call.name with
  | none => exact Or.inr (Or.inl rfl)
  | some tool =>
      by_cases hegress : (tool.requiresEgress && !allowEgress) = true
      · simp only [hegress, if_true]
        exact Or.inr (Or.inl rfl)
      simp only [hegress, Bool.false_eq_true, if_false]
      simp only [AgentOp.ask, Prog.perform_bind, Prog.result_call]
      refine ⟨trivial, ?_⟩
      rintro r rfl
      have hanswer : tools.answer (.available request.call.name (some request.call))
          = tools.available request.call.name := rfl
      simp only [hanswer]
      cases tools.available request.call.name with
      | error exn => exact Or.inr (Or.inl rfl)
      | ok available =>
          cases available with
          | false => exact Or.inr (Or.inl rfl)
          | true =>
              cases hargs : validateArguments request.call.arguments tool.parameters with
              | error exn =>
                  simp only
                  split_ifs <;> exact Or.inr (Or.inl rfl)
              | ok arguments =>
                  simp only
                  rw [runChecked_plain]
                  exact runChecked_agrees hkeys hcaller _ _ _

/-- The cache holds what the tools gave. -/
def Remembers (tools : SteadyTools) (callers : Set Principal) (indexVersion : String)
    (s : MemoryCache ToolKey ToolResult) : Prop :=
  ∀ key result expires, s.store.get? key = some (result, expires) →
    tools.Memo callers indexVersion key result

theorem toolCell_remembers {s s' : MemoryCache ToolKey ToolResult} {t : List AgentEvent}
    {o : AgentOp} {r : AgentResp o} (hs : Remembers tools callers indexVersion s)
    (ho : StoresMemo tools indexVersion callers o) (h : ToolCell tools s t o r s') :
    CacheFits tools indexVersion callers o r ∧ Remembers tools callers indexVersion s' := by
  cases o with
  | available tool call =>
      obtain ⟨hr, rfl⟩ := h
      exact ⟨hr, hs⟩
  | runTool tool arguments principal budget =>
      obtain ⟨hr, rfl⟩ := h
      exact ⟨hr, hs⟩
  | toolCacheGet key =>
      obtain ⟨now, rfl, rfl⟩ := h
      constructor
      · cases hfound : (s.get now key).1 with
        | none => exact Or.inl rfl
        | some result =>
            obtain ⟨expires, hget, -⟩ := MemoryCache.get_hit hfound
            exact Or.inr ⟨result, hs key result expires hget, rfl⟩
      · intro key' result expires hget
        exact hs key' result expires (MemoryCache.get_store hget)
  | toolCacheSet key result =>
      obtain ⟨rfl, now, ttlSeconds, rfl⟩ := h
      refine ⟨rfl, ?_⟩
      intro key' result' expires hget
      change (s.store.set key _).get? key' = _ at hget
      rw [Dict.get?_set] at hget
      split_ifs at hget with hkey
      · cases hget
        exact hkey ▸ ho
      · exact hs key' result' expires hget
  | _ =>
      cases h
      exact ⟨trivial, hs⟩

/-- Calls of any callers run interleaved over one cache that starts empty and forgets what it
likes: each ends as it would without the cache, or with its turn. -/
theorem result_cache_transparent {ι : Type} [DecidableEq ι] (requests : ι → ToolRequest)
    (hkeys : tools.KeyedBy (Set.range fun i => (requests i).principal) indexVersion)
    {q : Pool AgentOp AgentResp ι (MemoryCache ToolKey ToolResult) (Except Failure ToolResult)}
    (h : Pool.Reaches (ToolCell tools) Forgets
      (Pool.start {} fun i => (requests i).program registry allowEgress indexVersion) q)
    (i : ι) (outcome : Except Failure ToolResult) (hdone : q.rest i = .ret outcome) :
    outcome = .error .deadline
      ∨ Agrees outcome ((requests i).plain tools registry allowEgress indexVersion) := by
  have hempty : Remembers tools (Set.range fun i => (requests i).principal) indexVersion {} := by
    intro key result expires hget
    cases hget
  have hpool := Pool.spec (J := Remembers tools (Set.range fun i => (requests i).principal)
      indexVersion) (A := CacheFits tools indexVersion _) (G := StoresMemo tools indexVersion _)
    (fun s t o r s' hs ho hcell => toolCell_remembers hs ho hcell)
    (fun s s' hs hforgets key result expires hget => hs key result expires (hforgets _ _ hget))
    hempty
    (fun i => execute_agrees hkeys (requests i) ⟨i, rfl⟩) h
  exact (hpool.2 i).2 outcome hdone

end Calls

def lookupTools : SteadyTools where
  available _ := .ok true
  run _ _ principal := .ok { callId := "tool", name := "tool", content := principal.tenant }

def lookupRegistry : ToolRegistry where
  tools := [⟨"lookup", "", [], false⟩]
  nodup := List.nodup_singleton _
  resultCache := true

/-- The same call under two ids. -/
def lookupRequest (again : Bool) : ToolRequest where
  principal := ⟨"u", ∅, "acme"⟩
  call := ⟨if again then "second" else "first", "lookup", []⟩
  budget := ⟨{}, 0, 0, 0, 0, 0, {}⟩

/-- The cache keeps everything. -/
def serveLookups (s : MemoryCache ToolKey ToolResult) (_ : List AgentEvent) :
    (o : AgentOp) → AgentResp o × MemoryCache ToolKey ToolResult
  | .toolCacheGet key => (.ok ((s.get 0 key).1.map ToolResult.reloaded), (s.get 0 key).2)
  | .toolCacheSet key result => (.ok (), s.set 0 key result none)
  | o => (lookupTools.answer o, s)

/-- One call after the other. -/
@[irreducible] def lookedUp [Runtime] :
    Pool AgentOp AgentResp Bool (MemoryCache ToolKey ToolResult) (Except Failure ToolResult) :=
  ((Pool.start {} fun again => (lookupRequest again).program lookupRegistry false "v1").finish
    serveLookups false).finish serveLookups true

theorem lookedUp_reached [Runtime] :
    Pool.Reaches (ToolCell lookupTools) Forgets
      (Pool.start {} fun again => (lookupRequest again).program lookupRegistry false "v1")
      lookedUp := by
  have hserve : ∀ s t o, ∃ s₀, Relation.ReflTransGen Forgets s s₀
      ∧ ToolCell lookupTools s₀ t o (serveLookups s t o).1 (serveLookups s t o).2 := by
    intro s t o
    refine ⟨s, .refl, ?_⟩
    cases o with
    | runTool tool arguments principal budget => exact ⟨Or.inr rfl, rfl⟩
    | available tool call => exact ⟨rfl, rfl⟩
    | toolCacheGet key => exact ⟨0, rfl, rfl⟩
    | toolCacheSet key result => exact ⟨rfl, 0, none, rfl⟩
    | _ => rfl
  rw [lookedUp]
  exact (Pool.reaches_finish hserve _ _).trans (Pool.reaches_finish hserve _ _)

theorem lookupTools_keyedBy [Runtime] :
    lookupTools.KeyedBy (Set.range fun again => (lookupRequest again).principal) "v1" := by
  rintro tool arguments arguments' principal principal' ⟨again, rfl⟩ ⟨again', rfl⟩ -
  rfl

def runsTool : AgentOp → Bool
  | .runTool _ _ _ _ => true
  | _ => false

/-- The second call ends without running the tool. -/
theorem second_lookup_cached :
    let _ := Runtime.ascii
    (((lookedUp.rest true).value?.bind Except.toOption).map ToolResult.callId,
      (lookedUp.done true).any fun e => runsTool e.op) = (some "second", false) := by
  intro _
  decide +kernel

theorem second_lookup_agrees :
    let _ := Runtime.ascii
    ∃ outcome, (lookedUp.rest true).value? = some outcome
      ∧ (outcome = .error .deadline
        ∨ Agrees outcome ((lookupRequest true).plain lookupTools lookupRegistry false "v1")) := by
  intro _
  have hcached := congrArg Prod.fst second_lookup_cached
  cases hvalue : (lookedUp.rest true).value? with
  | none =>
      rw [hvalue] at hcached
      cases hcached
  | some outcome =>
      exact ⟨outcome, rfl, result_cache_transparent lookupRequest lookupTools_keyedBy
        lookedUp_reached true outcome (Prog.eq_ret_of_value? hvalue)⟩

end Rag
