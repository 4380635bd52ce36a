import Rag.Agent.Coherence
import Rag.Agent.Retrieval
import Rag.Api.Query
import Rag.Cache.Memory
import Rag.Lib.Pool

/-!
Whether what the agent's caches hold belongs to the version it is held under.

Any number of agent requests run interleaved over one cache while the alias is promoted and
rolled back. A request looks the version up in several places. As long as every lookup of a
request names the version its first one did, a tool result and an answer are stored under
the version their chunks are of (`settled_coherent`). A promotion between the lookup at the
start of a turn and the one inside retrieval breaks this (`promotion_breaks_coherence`).
-/

namespace Rag

open Py Interaction AgentRuntime

/-- The chunks of all index versions. An id names one chunk. -/
structure Corpus where
  chunks : List Chunk
  nodup : (chunks.map Chunk.chunkId).Nodup

namespace Corpus

variable (corpus : Corpus)

/-- The chunk of the source is of the version. -/
def Holds (version : String) (source : Source) : Prop :=
  source.kind = .chunk
    ∧ ∃ chunk ∈ corpus.chunks, chunk.chunkId = source.ref ∧ chunk.indexVersion = version

/-- The citation is of a chunk of the version. -/
def Cites (version : String) (citation : Citation) : Prop :=
  ∃ chunk ∈ corpus.chunks, chunk.chunkId = citation.chunkId ∧ chunk.indexVersion = version

/-- A search in the collection of a version finds chunks of that version. -/
def Finds (version : Option String) (found : Except Exn (List (ScoredChunk ℚ))) : Prop :=
  ∀ hits, found = .ok hits →
    ∀ hit ∈ hits, hit.chunk ∈ corpus.chunks ∧ version = some hit.chunk.indexVersion

variable {corpus} {version : String} {source : Source}

theorem Holds.cites (h : corpus.Holds version source) :
    corpus.Cites version (citationFromSource source) := by
  obtain ⟨hkind, chunk, hchunk, hid, hversion⟩ := h
  exact ⟨chunk, hchunk, by rw [hid, citationFromSource, if_pos hkind], hversion⟩

theorem Holds.reloaded (h : corpus.Holds version source) : corpus.Holds version source.reloaded :=
  h

theorem holds_sourceFromScored [Runtime] {scored : ScoredChunk ℚ}
    (hchunk : scored.chunk ∈ corpus.chunks) (hversion : scored.chunk.indexVersion = version) :
    corpus.Holds version (sourceFromScored scored) :=
  ⟨rfl, scored.chunk, hchunk, rfl, hversion⟩

end Corpus

/-- What the alias resolves to, and what the cache holds for the agent. The keys of tool
results and of answers differ in kind. -/
structure Deployment where
  live : Option String
  tools : MemoryCache ToolKey ToolResult := {}
  answers : MemoryCache AnswerKey Payload := {}

/-- How the shared state answers an operation of a request, and what becomes of it. A cache
that is down misses and drops what it is given; all else is answered from outside. -/
def AgentCell (corpus : Corpus) (s : Deployment) (_ : List RequestEvent) :
    (o : RequestOp) → RequestResp o → Deployment → Prop
  | .inl (.inr (.resolveAlias _)), r, s' => r = s.live ∧ s' = s
  | .inl (.inr (.search _ _ _ version)), r, s' => corpus.Finds version r ∧ s' = s
  | .inl (.inr (.lexicalSearch _ _ _ version)), r, s' => corpus.Finds version r ∧ s' = s
  | .inl (.inl (.toolCacheGet key)), r, s' =>
      (∃ now, r = .ok ((s.tools.get now key).1.map ToolResult.reloaded)
        ∧ s' = { s with tools := (s.tools.get now key).2 })
      ∨ r = .ok none ∧ s' = s
  | .inl (.inl (.toolCacheSet key result)), _, s' =>
      (∃ now ttlSeconds, s' = { s with tools := s.tools.set now key result ttlSeconds })
      ∨ s' = s
  | .inr (.cacheGet key), r, s' =>
      (∃ now, r = .ok (s.answers.get now key).1
        ∧ s' = { s with answers := (s.answers.get now key).2 })
      ∨ r = .ok none ∧ s' = s
  | .inr (.cacheSet key answer), _, s' =>
      (∃ now ttlSeconds,
        s' = { s with answers := s.answers.set now key (.agent answer) ttlSeconds })
      ∨ s' = s
  | _, _, s' => s' = s

/-- Outside the requests the alias is set to any version, entries disappear, and the pipeline
stores answers of its own. -/
structure Promoted (s s' : Deployment) : Prop where
  tools : ∀ key entry, s'.tools.store.get? key = some entry → s.tools.store.get? key = some entry
  answers : ∀ key entry, s'.answers.store.get? key = some entry →
    s.answers.store.get? key = some entry ∨ ∃ answer, entry.1 = .plain answer

/-- Every tool result and every agent answer belongs to the version it is held under. -/
structure Coherent (corpus : Corpus) (s : Deployment) : Prop where
  tools : ∀ key result expires, s.tools.store.get? key = some (result, expires) →
    ∀ source ∈ result.sources, corpus.Holds key.indexVersion source
  answers : ∀ key answer expires, s.answers.store.get? key = some (.agent answer, expires) →
    answer.indexVersion = key.scope.indexVersion
      ∧ ∀ c ∈ answer.citations, corpus.Cites key.scope.indexVersion c

section Assume

variable (corpus : Corpus) (pipeline : OnlinePipeline)

/-- The alias resolves to `version`, and the rest answers as the shared state does. -/
def AnswersIn (version : String) : (o : RequestOp) → RequestResp o → Prop
  | .inl (.inr (.resolveAlias _)), r => pipeline.versionOf r = version
  | .inl (.inr (.search _ _ _ searched)), r => corpus.Finds searched r
  | .inl (.inr (.lexicalSearch _ _ _ searched)), r => corpus.Finds searched r
  | .inl (.inl (.toolCacheGet key)), r => ∀ result, r = .ok (some result) →
      SourcesFit corpus.Holds key.indexVersion result
  | _, _ => True

/-- What is stored belongs to the version it is stored under. -/
def StoresCoherent : RequestOp → Prop
  | .inl (.inl (.toolCacheSet key result)) => SourcesFit corpus.Holds key.indexVersion result
  | .inr (.cacheSet key answer) => answer.indexVersion = key.scope.indexVersion
      ∧ ∀ c ∈ answer.citations, corpus.Cites key.scope.indexVersion c
  | _ => True

variable {corpus} in
theorem Corpus.found_in {version : String} {found : List (ScoredChunk ℚ)}
    (h : corpus.Finds (some version) (.ok found)) (hit : ScoredChunk ℚ) (hhit : hit ∈ found) :
    hit.chunk ∈ corpus.chunks ∧ hit.chunk.indexVersion = version := by
  obtain ⟨hchunk, hversion⟩ := h found rfl hit hhit
  exact ⟨hchunk, (Option.some.inj hversion).symm⟩

/-- Under an alias that resolves to one version the searches stay in that version. -/
theorem answersIn_serves (principal : Principal) (version : String) :
    Serves pipeline principal (fun o => AnswersIn corpus pipeline version (.inl (.inr o)))
      (fun _ => True) (fun chunk => chunk ∈ corpus.chunks ∧ chunk.indexVersion = version)
      fun _ => True where
  starts := trivial
  resolves _ := trivial
  retrieves _ _ _ := trivial
  hits aliasName resolved v k found hresolved hfinds := by
    have hversion : pipeline.versionOf resolved = version := hresolved
    rw [hversion] at hfinds
    exact Corpus.found_in hfinds
  lexicalHits aliasName resolved q k found hresolved hfinds := by
    have hversion : pipeline.versionOf resolved = version := hresolved
    rw [hversion] at hfinds
    exact Corpus.found_in hfinds
  raises _ _ _ _ _ := trivial

end Assume

section Requests

variable [Runtime] {corpus : Corpus} (state : AppState) (rt : AgentRuntime) (body : QueryRequest)
  (principal : Principal) (version : String)

theorem serveTools_fits (pipeline : OnlinePipeline) (o : AgentOp)
    (ho : StoresFit corpus.Holds o) :
    Prog.Spec (fun o => AnswersIn corpus pipeline version (.inl o))
      (fun o => StoresCoherent corpus (.inl o)) (serveTools pipeline o)
      (AnswersFit corpus.Holds version o) := by
  cases o with
  | activeIndexVersion => exact ⟨trivial, fun resolved hresolved => hresolved⟩
  | available => trivial
  | spec => trivial
  | runTool name arguments principal budget =>
      have htool := runTool_returns (answersIn_serves corpus pipeline principal version) name
        arguments fun _ _ => trivial
      have hserved : Prog.Spec (fun o => AnswersIn corpus pipeline version (.inl o))
          (fun o => StoresCoherent corpus (.inl o))
          (Prog.interp onPipeline (runTool pipeline name arguments principal).run) _ :=
        Prog.Spec.interp htool fun o _ => ⟨by cases o <;> trivial, fun _ hr => hr⟩
      rw [serveTools, Prog.spec_bind]
      refine hserved.mono ?_
      intro outcome houtcome
      refine ⟨trivial, ?_⟩
      intro late _ result hresult
      cases late with
      | true => cases hresult
      | false =>
          cases outcome with
          | error exn => cases hresult
          | ok found =>
              cases hresult
              intro source hsource
              obtain ⟨topK, results, hresults, rfl⟩ := houtcome
              obtain ⟨scored, hscored, -, rfl⟩ := RetrievalTool.mem_resultOf hsource
              obtain ⟨hchunk, hversion⟩ := hresults scored hscored
              exact Corpus.holds_sourceFromScored hchunk hversion
  | toolCacheGet key => exact ⟨trivial, fun r hr => hr⟩
  | toolCacheSet key result => exact ⟨ho, fun _ _ => trivial⟩
  | _ => exact ⟨trivial, fun _ _ => trivial⟩

/-- A part of a turn inside a request. -/
theorem ofAgent_fits {α : Type} {p : AgentProg α} {Q : α → Prop}
    (h : Prog.Spec (AnswersFit corpus.Holds version) (StoresFit corpus.Holds) p Q) :
    Prog.Spec (AnswersIn corpus state.pipeline version) (StoresCoherent corpus)
      (ofAgent (serveTools state.pipeline) p) Q := by
  have hserved := h.interp fun o ho => serveTools_fits version state.pipeline o ho
  exact hserved.interp fun o ho => ⟨ho, fun _ hr => hr⟩

/-- The key of a request names the version it has looked up. -/
theorem agentAnswerKey_fits (budget : Budget) :
    Prog.SpecE (AnswersIn corpus state.pipeline version) (StoresCoherent corpus)
      (agentAnswerKey (serveTools state.pipeline) state rt body principal budget)
      (fun key => key.scope.indexVersion = version) fun _ => True := by
  have hasks : Prog.Asks (StoresFit corpus.Holds) (allowedFor rt.tools rt.allowEgress) :=
    (allowedTools_asks rt.allowEgress rt.tools.tools).mono fun _ ho => storesFit_of_listing ho
  have hlisted : Prog.Spec (AnswersFit corpus.Holds version) (StoresFit corpus.Holds)
      (allowedFor rt.tools rt.allowEgress) fun _ => True :=
    ((Prog.asks_iff _).mp hasks).strengthen (fun _ _ _ _ => trivial) fun _ ho => ho
  unfold agentAnswerKey
  simp only [Prog.specE_bind]
  refine (ofAgent_fits state version hlisted).mono ?_
  rintro (exn | tools) -
  · trivial
  · refine ⟨trivial, ?_⟩
    intro resolved hresolved
    exact hresolved

omit [Runtime] in
theorem lookupAgentAnswer_fits (key : AnswerKey) :
    Prog.SpecE (AnswersIn corpus state.pipeline version) (StoresCoherent corpus)
      (lookupAgentAnswer state key) (fun _ => True) fun _ => True := by
  unfold lookupAgentAnswer
  split_ifs
  · refine ⟨trivial, ?_⟩
    rintro (exn | payload) -
    · trivial
    · trivial
  · trivial

omit [Runtime] in
theorem storeAgentAnswer_fits {key : AnswerKey} {answer : AgentAnswer}
    (hkey : key.scope.indexVersion = version) (h : AnswerFits corpus.Holds version answer) :
    Prog.SpecE (AnswersIn corpus state.pipeline version) (StoresCoherent corpus)
      (storeAgentAnswer state key answer) (fun _ => True) fun _ => True := by
  unfold storeAgentAnswer
  split_ifs with hgate
  · simp only [storesAgentAnswer, Bool.and_eq_true, Bool.not_eq_true'] at hgate
    obtain ⟨hversion, hcitations⟩ := h hgate.1.2
    refine ⟨⟨hversion.trans hkey.symm, ?_⟩, ?_⟩
    · intro c hc
      obtain ⟨source, hsource, rfl⟩ := hcitations c hc
      rw [hkey]
      exact hsource.cites
    · rintro (exn | _) -
      · trivial
      · trivial
  · trivial

/-- A request whose lookups all give one version stores what belongs to it. -/
theorem runAgent_fits :
    Prog.Spec (AnswersIn corpus state.pipeline version) (StoresCoherent corpus)
      (runAgent (serveTools state.pipeline) state rt body principal) fun _ => True := by
  unfold runAgent
  extract_lets budget
  have hopen : Prog.SpecE (AnswersIn corpus state.pipeline version) (StoresCoherent corpus)
      (openAgentRequest (serveTools state.pipeline) state rt body principal budget)
      (fun opened => opened.1.scope.indexVersion = version) fun _ => True := by
    unfold openAgentRequest
    simp only [Prog.specE_bind]
    refine (agentAnswerKey_fits state rt body principal version budget).mono ?_ fun _ h => h
    intro key hkey
    exact (lookupAgentAnswer_fits state version key).mono (fun _ _ => hkey) fun _ h => h
  rw [Prog.spec_bind]
  refine Prog.Spec.mono hopen ?_
  rintro (exn | ⟨key, _ | hit⟩) hkey
  · trivial
  · dsimp only
    rw [Prog.spec_bind]
    have hturn : Prog.Spec (AnswersFit corpus.Holds version) (StoresFit corpus.Holds)
        (rt.run body.query.val principal (some budget)) _ := run_fits
    refine (ofAgent_fits state version hturn).mono ?_
    rintro (_ | exn | answer) hfits
    · trivial
    · trivial
    · dsimp only
      rw [Prog.spec_bind]
      refine Prog.Spec.mono (storeAgentAnswer_fits state version hkey (hfits answer rfl)) ?_
      rintro (exn | _) -
      · trivial
      · trivial
  · trivial

end Requests

section Lookups

variable (pipeline : OnlinePipeline)

/-- The version an event has looked up. -/
def resolvedIn : RequestEvent → Option String
  | ⟨.inl (.inr (.resolveAlias _)), r⟩ => some (pipeline.versionOf r)
  | _ => none

/-- The event looks no version up, or the one that every earlier lookup of the request gave. -/
def Unmoved (t : List RequestEvent) (e : RequestEvent) : Prop :=
  ∀ v ∈ resolvedIn pipeline e, ∀ earlier ∈ t, ∀ w ∈ resolvedIn pipeline earlier, w = v

/-- `AgentCell` where no promotion lands between two lookups of one request. -/
def SettledCell (corpus : Corpus) (s : Deployment) (t : List RequestEvent) (o : RequestOp)
    (r : RequestResp o) (s' : Deployment) : Prop :=
  AgentCell corpus s t o r s' ∧ Unmoved pipeline t ⟨o, r⟩

variable {pipeline} {corpus : Corpus} {version other : String} {o : RequestOp} {r : RequestResp o}

theorem answersIn_of_resolved (h : resolvedIn pipeline ⟨o, r⟩ = some version) :
    AnswersIn corpus pipeline version o r := by
  rcases o with (o | o) | o
  · cases h
  · cases o with
    | resolveAlias aliasName => exact Option.some.inj h
    | _ => cases h
  · cases h

/-- Only a lookup tells one version from another. -/
theorem answersIn_congr (h : resolvedIn pipeline ⟨o, r⟩ = none)
    (hanswers : AnswersIn corpus pipeline version o r) : AnswersIn corpus pipeline other o r := by
  rcases o with (o | o) | o
  · cases o <;> exact hanswers
  · cases o with
    | resolveAlias aliasName => cases h
    | _ => exact hanswers
  · cases o <;> exact hanswers

end Lookups

section Cells

variable {corpus : Corpus} {s s' : Deployment} {t : List RequestEvent} {o : RequestOp}
  {r : RequestResp o}

theorem Coherent.promoted (h : Coherent corpus s) (hs : Promoted s s') : Coherent corpus s' := by
  constructor
  · intro key result expires hget
    exact h.tools key result expires (hs.tools key _ hget)
  · intro key answer expires hget
    rcases hs.answers key _ hget with hold | ⟨plain, hplain⟩
    · exact h.answers key answer expires hold
    · cases hplain

theorem Coherent.set_tools (h : Coherent corpus s) {now : ℚ} {key : ToolKey} {result : ToolResult}
    {ttlSeconds : Option ℤ} (hresult : SourcesFit corpus.Holds key.indexVersion result) :
    Coherent corpus { s with tools := s.tools.set now key result ttlSeconds } := by
  refine ⟨?_, h.answers⟩
  intro key' result' expires hget
  change (s.tools.store.set key _).get? key' = _ at hget
  rw [Dict.get?_set] at hget
  split_ifs at hget with hkey
  · cases hget
    exact hkey ▸ hresult
  · exact h.tools key' result' expires hget

theorem Coherent.set_answers (h : Coherent corpus s) {now : ℚ} {key : AnswerKey}
    {answer : AgentAnswer} {ttlSeconds : Option ℤ}
    (hanswer : StoresCoherent corpus (.inr (.cacheSet key answer))) :
    Coherent corpus { s with answers := s.answers.set now key (.agent answer) ttlSeconds } := by
  refine ⟨h.tools, ?_⟩
  intro key' answer' expires hget
  change (s.answers.store.set key _).get? key' = _ at hget
  rw [Dict.get?_set] at hget
  split_ifs at hget with hkey
  · cases hget
    exact hkey ▸ hanswer
  · exact h.answers key' answer' expires hget

/-- A coherent state answers as every request assumes, and coherent stores keep it so. -/
theorem agentCell_coherent {pipeline : OnlinePipeline} (hs : Coherent corpus s)
    (ho : StoresCoherent corpus o) (h : AgentCell corpus s t o r s') :
    (∀ version, resolvedIn pipeline ⟨o, r⟩ = none → AnswersIn corpus pipeline version o r)
      ∧ Coherent corpus s' := by
  rcases o with (o | o) | o
  · cases o with
    | toolCacheGet key =>
        rcases h with ⟨now, rfl, rfl⟩ | ⟨rfl, rfl⟩
        · refine ⟨?_, ?_⟩
          · intro version _ result hresult
            obtain ⟨stored, hstored, rfl⟩ := Option.map_eq_some_iff.mp (Except.ok.inj hresult)
            obtain ⟨expires, hget, -⟩ := MemoryCache.get_hit hstored
            intro source hsource
            obtain ⟨old, hold, rfl⟩ := List.mem_map.mp hsource
            exact (hs.tools key stored expires hget old hold).reloaded
          · refine ⟨?_, hs.answers⟩
            intro key' result expires hget
            exact hs.tools key' result expires (MemoryCache.get_store hget)
        · exact ⟨by rintro version - result ⟨⟩, hs⟩
    | toolCacheSet key result =>
        refine ⟨fun _ _ => trivial, ?_⟩
        rcases h with ⟨now, ttlSeconds, rfl⟩ | rfl
        · exact hs.set_tools ho
        · exact hs
    | _ =>
        cases h
        exact ⟨fun _ _ => trivial, hs⟩
  · cases o with
    | resolveAlias aliasName =>
        obtain ⟨rfl, rfl⟩ := h
        exact ⟨by rintro version ⟨⟩, hs⟩
    | search vector topK principal searched =>
        obtain ⟨hfinds, rfl⟩ := h
        exact ⟨fun _ _ => hfinds, hs⟩
    | lexicalSearch query topK principal searched =>
        obtain ⟨hfinds, rfl⟩ := h
        exact ⟨fun _ _ => hfinds, hs⟩
    | _ =>
        cases h
        exact ⟨fun _ _ => trivial, hs⟩
  · cases o with
    | cacheGet key =>
        refine ⟨fun _ _ => trivial, ?_⟩
        rcases h with ⟨now, rfl, rfl⟩ | ⟨rfl, rfl⟩
        · refine ⟨hs.tools, ?_⟩
          intro key' answer expires hget
          exact hs.answers key' answer expires (MemoryCache.get_store hget)
        · exact hs
    | cacheSet key answer =>
        refine ⟨fun _ _ => trivial, ?_⟩
        rcases h with ⟨now, ttlSeconds, rfl⟩ | rfl
        · exact hs.set_answers ho
        · exact hs

/-- A settled step leaves one version that fits everything the request has seen. -/
theorem settledCell_consistent {pipeline : OnlinePipeline} (hs : Coherent corpus s)
    (ht : Pool.Consistent (AnswersIn corpus pipeline) t) (ho : StoresCoherent corpus o)
    (h : SettledCell pipeline corpus s t o r s') :
    Pool.Consistent (AnswersIn corpus pipeline) (t ++ [⟨o, r⟩]) ∧ Coherent corpus s' := by
  obtain ⟨hcell, hunmoved⟩ := h
  obtain ⟨version, hversion⟩ := ht
  obtain ⟨hanswer, hs'⟩ : (∀ version, resolvedIn pipeline ⟨o, r⟩ = none →
      AnswersIn corpus pipeline version o r) ∧ Coherent corpus s' := agentCell_coherent hs ho hcell
  refine ⟨?_, hs'⟩
  cases hresolved : resolvedIn pipeline (⟨o, r⟩ : RequestEvent) with
  | none =>
      refine ⟨version, ?_⟩
      intro e he
      rcases List.mem_append.mp he with he | he
      · exact hversion e he
      · rw [List.mem_singleton.mp he]
        exact hanswer version hresolved
  | some found =>
      refine ⟨found, ?_⟩
      intro e he
      rcases List.mem_append.mp he with he | he
      · cases hearlier : resolvedIn pipeline e with
        | none => exact answersIn_congr hearlier (hversion e he)
        | some w =>
            have hsame : w = found := hunmoved found hresolved e he w hearlier
            exact answersIn_of_resolved (hsame ▸ hearlier)
      · rw [List.mem_singleton.mp he]
        exact answersIn_of_resolved hresolved

end Cells

section Pools

variable [Runtime] {ι : Type} [DecidableEq ι]

/-- Agent requests that have not begun, over what the cache holds already. -/
def agentPool (state : AppState) (rt : AgentRuntime) (requests : ι → QueryRequest × Principal)
    (shared : Deployment) :
    Pool RequestOp RequestResp ι Deployment (Option (Except Exn Response)) :=
  Pool.start shared fun i =>
    runAgent (serveTools state.pipeline) state rt (requests i).1 (requests i).2

/-- Where no promotion lands between two lookups of one request, what the cache holds under a
version belongs to it, whatever the interleaving. -/
theorem settled_coherent {corpus : Corpus} {state : AppState} {rt : AgentRuntime}
    {requests : ι → QueryRequest × Principal} {shared : Deployment}
    {q : Pool RequestOp RequestResp ι Deployment (Option (Except Exn Response))}
    (hshared : Coherent corpus shared)
    (h : Pool.Reaches (SettledCell state.pipeline corpus) Promoted
      (agentPool state rt requests shared) q) : Coherent corpus q.shared := by
  have hall := Pool.spec_consistent (J := Coherent corpus)
    (A := AnswersIn corpus state.pipeline) (G := StoresCoherent corpus) (Q := fun _ _ _ => True)
    (fun _ _ _ _ _ hs ht ho hcell => settledCell_consistent hs ht ho hcell)
    (fun _ _ hs hmoved => hs.promoted hmoved) hshared
    (fun version i => runAgent_fits state rt (requests i).1 (requests i).2 version) h
  exact hall.1

end Pools

/-- One passage, as the given version has it. -/
def passageOf (version : String) : Chunk where
  chunkId := "chunk-" ++ version
  docId := "rota"
  ordinal := 0
  text := "Ann is on call."
  span := (0, 15)
  acl := { tenant := "acme" }
  indexVersion := version

def twoVersions : Corpus where
  chunks := [passageOf "v1", passageOf "v2"]
  nodup := by decide

def searchingPipeline : OnlinePipeline where
  settings := { piiRedactionEnabled := false }

def searchingState : AppState where
  pipeline := searchingPipeline
  settings := {}

def searchingAgent [Runtime] : AgentRuntime where
  tools := buildToolRegistry searchingPipeline true
  piiRedactionEnabled := false

def onCallRequest : QueryRequest × Principal :=
  (⟨⟨"on call", by decide⟩, .agent, none, none, none, none, none, none⟩, ⟨"u", ∅, "acme"⟩)

def retrievalCompletion : ChatCompletion where
  message := {
    role := .assistant
    toolCalls := [{ id := "1", name := "retrieval_search", arguments := [("query", .str "q")] }] }

/-- What the alias resolves to for the next lookup: promoted after the second one, if at all. -/
def liveAt (promoted : Bool) (s : Deployment) (t : List RequestEvent) : Option String :=
  if promoted && 2 ≤ t.countP fun e => (resolvedIn searchingPipeline e).isSome then some "v2"
  else s.live

def passagesOf (version : Option String) : List (ScoredChunk ℚ) :=
  (twoVersions.chunks.filter fun chunk => version = some chunk.indexVersion).map
    fun chunk => ⟨chunk, 1, 1, .dense⟩

/-- The planner searches once and is late after that; the caches keep what they are given. -/
def serveSearch (promoted : Bool) (s : Deployment) (t : List RequestEvent) :
    (o : RequestOp) → RequestResp o × Deployment
  | .inl (.inr (.resolveAlias _)) =>
      (liveAt promoted s t, { s with live := liveAt promoted s t })
  | .inl (.inr (.search _ _ _ version)) => (.ok (passagesOf version), s)
  | .inl (.inr (.lexicalSearch _ _ _ _)) => (.ok [], s)
  | .inl (.inr (.embed texts)) => (.ok (texts.map fun _ => [1]), s)
  | .inl (.inr o) => (mixedAnswers (.inr o), s)
  | .inl (.inl (.chat messages _)) =>
      (if messages.length = 2 then .ok retrievalCompletion else .error .deadline, s)
  | .inl (.inl (.toolCacheGet _)) => (.ok none, s)
  | .inl (.inl (.toolCacheSet key result)) =>
      (.ok (), { s with tools := s.tools.set 0 key result none })
  | .inl (.inl o) => (searchAnswers (hiddenResult "text" "x") o, s)
  | .inr (.cacheGet _) => (.ok none, s)
  | .inr (.cacheSet key answer) =>
      (.ok (), { s with answers := s.answers.set 0 key (.agent answer) none })

theorem passagesOf_found (version : Option String) :
    twoVersions.Finds version (.ok (passagesOf version)) := by
  rintro hits ⟨⟩ hit hhit
  obtain ⟨chunk, hchunk, rfl⟩ := List.mem_map.mp hhit
  obtain ⟨hmem, hversion⟩ := List.mem_filter.mp hchunk
  exact ⟨hmem, of_decide_eq_true hversion⟩

/-- Every answer is one the shared state allows once the alias has been moved. -/
theorem serveSearch_allowed (promoted : Bool) (s : Deployment) (t : List RequestEvent)
    (o : RequestOp) : AgentCell twoVersions { s with live := (serveSearch promoted s t o).2.live } t o
      (serveSearch promoted s t o).1 (serveSearch promoted s t o).2 := by
  rcases o with (o | o) | o
  · cases o with
    | toolCacheGet key => exact .inr ⟨rfl, rfl⟩
    | toolCacheSet key result => exact .inl ⟨0, none, rfl⟩
    | _ => rfl
  · cases o with
    | resolveAlias aliasName => exact ⟨rfl, rfl⟩
    | search vector topK principal version => exact ⟨passagesOf_found version, rfl⟩
    | lexicalSearch query topK principal version =>
        refine ⟨?_, rfl⟩
        rintro hits ⟨⟩ hit hhit
        cases hhit
    | _ => rfl
  · cases o with
    | cacheGet key => exact .inr ⟨rfl, rfl⟩
    | cacheSet key answer => exact .inl ⟨0, none, rfl⟩

theorem serveSearch_live (s : Deployment) (t : List RequestEvent) (o : RequestOp) :
    (serveSearch false s t o).2.live = s.live := by
  rcases o with (o | o) | o
  · cases o <;> rfl
  · cases o <;> rfl
  · cases o <;> rfl

theorem serveSearch_resolves {s : Deployment} (hlive : s.live = some "v1")
    (t : List RequestEvent) (o : RequestOp) :
    ∀ w ∈ resolvedIn searchingPipeline ⟨o, (serveSearch false s t o).1⟩, w = "v1" := by
  intro w hw
  rcases o with (o | o) | o
  · cases hw
  · cases o with
    | resolveAlias aliasName =>
        have hversion : searchingPipeline.versionOf s.live = w := Option.some.inj hw
        rw [← hversion, hlive]
        rfl
    | _ => cases hw
  · cases hw

def versionOneLive : Deployment := { live := some "v1" }

/-- The request from beginning to end. -/
@[irreducible] def searched [Runtime] (promoted : Bool) :
    Pool RequestOp RequestResp Unit Deployment (Option (Except Exn Response)) :=
  (agentPool searchingState searchingAgent (fun _ => onCallRequest) versionOneLive).finish
    (serveSearch promoted) ()

/-- The sources held for the tool, each with the version it is held under. -/
def heldSources (s : Deployment) : List (String × String) :=
  s.tools.store.items.flatMap fun item =>
    item.2.1.sources.map fun source => (item.1.indexVersion, source.ref)

theorem versionOneLive_coherent : Coherent twoVersions versionOneLive := by
  constructor
  · rintro key result expires ⟨⟩
  · rintro key answer expires ⟨⟩

/-- Moving the alias touches no entry. -/
theorem promoted_live (s : Deployment) (live : Option String) :
    Promoted s { s with live := live } :=
  ⟨fun _ _ hget => hget, fun _ _ hget => .inl hget⟩

theorem searched_reached [Runtime] (promoted : Bool) :
    Pool.Reaches (AgentCell twoVersions) Promoted
      (agentPool searchingState searchingAgent (fun _ => onCallRequest) versionOneLive)
      (searched promoted) := by
  rw [searched]
  apply Pool.reaches_finish
  intro s t o
  exact ⟨_, .single (promoted_live s _), serveSearch_allowed promoted s t o⟩

/-- While the alias stays where it is, every step of the request is settled. -/
theorem searched_reached_settled [Runtime] :
    Pool.Reaches (SettledCell searchingPipeline twoVersions) Promoted
      (agentPool searchingState searchingAgent (fun _ => onCallRequest) versionOneLive)
      (searched false) := by
  rw [searched]
  apply Pool.reaches_finish_of (I := fun s t => s.live = some "v1"
    ∧ ∀ e ∈ t, ∀ w ∈ resolvedIn searchingPipeline e, w = "v1")
  · rintro s t o ⟨hlive, hlookups⟩
    have hnext := serveSearch_resolves hlive t o
    have hcell := serveSearch_allowed false s t o
    rw [serveSearch_live] at hcell
    refine ⟨⟨s, .refl, hcell, ?_⟩, (serveSearch_live s t o).trans hlive, ?_⟩
    · intro v hv earlier hearlier w hw
      rw [hnext v hv, hlookups earlier hearlier w hw]
    · intro e he
      rcases List.mem_append.mp he with he | he
      · exact hlookups e he
      · rw [List.mem_singleton.mp he]
        exact hnext
  · refine ⟨rfl, ?_⟩
    intro e he
    cases he

theorem searched_settled :
    let _ := Runtime.ascii
    heldSources (searched false).shared = [("v1", "chunk-v1")] := by
  intro _
  decide +kernel

theorem searched_promoted :
    let _ := Runtime.ascii
    heldSources (searched true).shared = [("v1", "chunk-v2")] := by
  intro _
  decide +kernel

/-- A coherent state holds a source under the version of its chunk. -/
theorem holds_of_heldSources {corpus : Corpus} {s : Deployment} (h : Coherent corpus s)
    {version ref : String} (hheld : (version, ref) ∈ heldSources s) :
    ∃ chunk ∈ corpus.chunks, chunk.chunkId = ref ∧ chunk.indexVersion = version := by
  obtain ⟨⟨key, result, expires⟩, hitem, hin⟩ := List.mem_flatMap.mp hheld
  obtain ⟨source, hsource, heq⟩ := List.mem_map.mp hin
  cases heq
  have hget : s.tools.store.get? key = some (result, expires) := Dict.get?_iff.mpr hitem
  exact (h.tools key result expires hget source hsource).2

/-- What the search found is held under the version that was live throughout. -/
theorem settled_coherent_search :
    let _ := Runtime.ascii
    Coherent twoVersions (searched false).shared
      ∧ heldSources (searched false).shared = [("v1", "chunk-v1")] := by
  intro _
  have hreached : Pool.Reaches (SettledCell searchingState.pipeline twoVersions) Promoted
      (agentPool searchingState searchingAgent (fun _ => onCallRequest) versionOneLive)
      (searched false) := searched_reached_settled
  exact ⟨settled_coherent versionOneLive_coherent hreached, searched_settled⟩

/-- The alias moves between the lookup of the turn and the one of the search: the passage of the
new version is held under the old one. -/
theorem promotion_breaks_coherence :
    ¬ ∀ (_ : Runtime) (corpus : Corpus) (state : AppState) (rt : AgentRuntime)
      (requests : Unit → QueryRequest × Principal) (shared : Deployment)
      (q : Pool RequestOp RequestResp Unit Deployment (Option (Except Exn Response))),
      Coherent corpus shared →
      Pool.Reaches (AgentCell corpus) Promoted (agentPool state rt requests shared) q →
      Coherent corpus q.shared := by
  intro h
  let _ := Runtime.ascii
  have hcoherent := h Runtime.ascii twoVersions searchingState searchingAgent
    (fun _ => onCallRequest) versionOneLive (searched true) versionOneLive_coherent
    (searched_reached true)
  have hheld : ("v1", "chunk-v2") ∈ heldSources (searched true).shared := by
    rw [searched_promoted]
    exact List.mem_singleton_self _
  obtain ⟨chunk, hchunk, hid, hversion⟩ := holds_of_heldSources hcoherent hheld
  have hnone : ∀ chunk ∈ twoVersions.chunks, chunk.chunkId = "chunk-v2" →
      chunk.indexVersion ≠ "v1" := by
    decide
  exact hnone chunk hchunk hid hversion

end Rag
