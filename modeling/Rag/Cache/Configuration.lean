import Rag.Pipelines.Online

/-!
What the answer key of the pipeline says about the configuration.

The parameters are written into the key as one JSON object. None of its values contains
a comma, so the members are recovered from the text, and with them every setting in
`cacheParams`. The settings the answer path reads besides are not recovered.
-/

namespace Rag

open Py

/-- A model client, with what its every request names. -/
inductive ModelClient where
  | echo
  | openai (model : String) (maxOutputTokens : ℤ) (temperature : ℚ)

/-- Primary client plus fallbacks. The key, the timeout and the attempts settle whether a model
answers and not which, so they are left out. -/
def buildLlm (settings : Settings) : List ModelClient :=
  match settings.llmBackend with
  | .openai => (settings.llmModel :: settings.llmFallbackModels).map fun model =>
      .openai model settings.llmMaxOutputTokens settings.llmTemperature
  | .echo => [.echo]

/-- Every setting the uncached answer path reads, and the LLM that is built from them. -/
structure SameAnswerSettings (s t : Settings) : Prop where
  topK : s.retrieval.topK = t.retrieval.topK
  rerankTopK : s.retrieval.rerankTopK = t.retrieval.rerankTopK
  rrfK : s.retrieval.rrfK = t.retrieval.rrfK
  denseWeight : s.retrieval.denseWeight = t.retrieval.denseWeight
  lexicalWeight : s.retrieval.lexicalWeight = t.retrieval.lexicalWeight
  rewriteEnabled : s.retrieval.rewriteEnabled = t.retrieval.rewriteEnabled
  multiQueryEnabled : s.retrieval.multiQueryEnabled = t.retrieval.multiQueryEnabled
  multiQueryCount : s.retrieval.multiQueryCount = t.retrieval.multiQueryCount
  hydeEnabled : s.retrieval.hydeEnabled = t.retrieval.hydeEnabled
  refusalScoreThreshold : s.refusalScoreThreshold = t.refusalScoreThreshold
  piiRedactionEnabled : s.piiRedactionEnabled = t.piiRedactionEnabled
  reranker : s.reranker = t.reranker
  llm : buildLlm s = buildLlm t

/-- The settings of the clients of `openai`. -/
structure SameOpenAISettings (s t : Settings) : Prop where
  llmModel : s.llmModel = t.llmModel
  llmFallbackModels : s.llmFallbackModels = t.llmFallbackModels
  llmMaxOutputTokens : s.llmMaxOutputTokens = t.llmMaxOutputTokens
  llmTemperature : s.llmTemperature = t.llmTemperature

/-- Those of them that `cacheParams` leaves out. -/
structure SameUnkeyedSettings (s t : Settings) : Prop where
  refusalScoreThreshold : s.refusalScoreThreshold = t.refusalScoreThreshold
  piiRedactionEnabled : s.piiRedactionEnabled = t.piiRedactionEnabled
  reranker : s.reranker = t.reranker
  llmBackend : s.llmBackend = t.llmBackend
  openai : s.llmBackend = .openai → SameOpenAISettings s t

theorem openai_model_injective (maxOutputTokens : ℤ) (temperature : ℚ) :
    Function.Injective fun model => ModelClient.openai model maxOutputTokens temperature := by
  intro model model' h
  cases h
  rfl

/-- One LLM is built exactly from one backend and, where it calls models, from the same
models asked in the same way. -/
theorem buildLlm_eq_iff (s t : Settings) :
    buildLlm s = buildLlm t
      ↔ s.llmBackend = t.llmBackend ∧ (s.llmBackend = .openai → SameOpenAISettings s t) := by
  unfold buildLlm
  cases hs : s.llmBackend with
  | echo =>
      cases ht : t.llmBackend with
      | echo => simp
      | openai => simp
  | openai =>
      cases ht : t.llmBackend with
      | echo => simp
      | openai =>
          constructor
          · intro h
            obtain ⟨hprimary, hfallbacks⟩ := List.cons.inj h
            obtain ⟨hmodel, htokens, htemperature⟩ := ModelClient.openai.inj hprimary
            rw [htokens, htemperature] at hfallbacks
            have hmodels := (openai_model_injective _ _).list_map hfallbacks
            exact ⟨rfl, fun _ => ⟨hmodel, hmodels, htokens, htemperature⟩⟩
          · rintro ⟨-, h⟩
            have hsame := h rfl
            simp only [hsame.llmModel, hsame.llmFallbackModels, hsame.llmMaxOutputTokens,
              hsame.llmTemperature]

/-- `float.__repr__` round-trips, and writes no comma. -/
structure FloatReprFaithful [Runtime] : Prop where
  injective : Function.Injective Runtime.floatRepr
  comma : ∀ q, ',' ∉ (Runtime.floatRepr q).toList

section Members

def boolText (b : Bool) : String := if b then "true" else "false"

theorem boolText_injective : Function.Injective boolText := by decide

theorem comma_not_mem_intText (n : ℤ) : ',' ∉ (toString n).toList := by
  intro h
  rcases Json.isDigit_of_mem_intText h with h | h
  · exact absurd h (by decide)
  · exact absurd h (by decide)

theorem comma_not_mem_boolText (b : Bool) : ',' ∉ (boolText b).toList := by
  cases b <;> decide

variable [Runtime]

/-- The members of the parameters, in the order of their names. -/
def paramMembers (cfg : RetrievalConfig) : List (String × String) :=
  [("dense_weight", Runtime.floatRepr cfg.denseWeight),
    ("hyde_enabled", boolText cfg.hydeEnabled),
    ("lexical_weight", Runtime.floatRepr cfg.lexicalWeight),
    ("multi_query_count", toString cfg.multiQueryCount),
    ("multi_query_enabled", boolText cfg.multiQueryEnabled),
    ("rerank_top_k", toString cfg.rerankTopK),
    ("rewrite_enabled", boolText cfg.rewriteEnabled),
    ("rrf_k", toString cfg.rrfK), ("top_k", toString cfg.topK)]

theorem cacheParams_members (cfg : RetrievalConfig) :
    Json.sortMembers (Json.dumpsFields cfg.cacheParams)
      = (paramMembers cfg).map fun m => Json.quote m.1 ++ ":" ++ m.2 := by
  simp only [RetrievalConfig.cacheParams, Json.dumps, Json.dumpsFields, Json.sortMembers,
    List.insertionSort_cons, List.insertionSort_nil, List.orderedInsert, Json.dumpsFloat]
  simp [paramMembers, boolText]

theorem comma_not_mem_members (hrepr : FloatReprFaithful) (cfg : RetrievalConfig) :
    ∀ m ∈ paramMembers cfg, ',' ∉ (Json.quote m.1 ++ ":" ++ m.2).toList := by
  have hname : ∀ m ∈ paramMembers cfg, ',' ∉ (Json.quote m.1 ++ ":").toList := by
    simp only [paramMembers, List.forall_mem_cons]
    decide
  have hvalue : ∀ m ∈ paramMembers cfg, ',' ∉ m.2.toList := by
    simp only [paramMembers, List.forall_mem_cons]
    exact ⟨hrepr.comma _, comma_not_mem_boolText _, hrepr.comma _, comma_not_mem_intText _,
      comma_not_mem_boolText _, comma_not_mem_intText _, comma_not_mem_boolText _,
      comma_not_mem_intText _, comma_not_mem_intText _, by simp⟩
  intro m hm
  rw [String.toList_append, List.mem_append, not_or]
  exact ⟨hname m hm, hvalue m hm⟩

/-- The text of the parameters determines every one of them. -/
theorem cacheParams_injective (hrepr : FloatReprFaithful) {cfg cfg' : RetrievalConfig}
    (h : (Json.obj cfg.cacheParams).dumps = (Json.obj cfg'.cacheParams).dumps) : cfg = cfg' := by
  rw [Json.dumps, Json.dumps, String.append_left_inj, String.append_right_inj,
    cacheParams_members, cacheParams_members] at h
  have hclean : ∀ c : RetrievalConfig,
      ∀ p ∈ (paramMembers c).map fun m => Json.quote m.1 ++ ":" ++ m.2,
        ',' ∉ p.toList ∧ p ≠ "" := by
    intro c p hp
    obtain ⟨m, hm, rfl⟩ := List.mem_map.mp hp
    refine ⟨comma_not_mem_members hrepr c m hm, ?_⟩
    intro hempty
    have hchars := congrArg String.toList hempty
    simp at hchars
  have hmembers := pieces_injOn_clean (hclean cfg) (hclean cfg')
    ((join_eq_join_iff ',' _ _).mp h)
  simp only [paramMembers, List.map_cons, List.map_nil, List.cons.injEq,
    String.append_right_inj, and_true] at hmembers
  obtain ⟨hdense, hhyde, hlexical, hcount, hmulti, hrerank, hrewrite, hrrf, htop⟩ := hmembers
  cases cfg
  cases cfg'
  simp only [RetrievalConfig.mk.injEq]
  exact ⟨Json.intText_injective htop, Json.intText_injective hrerank,
    Json.intText_injective hrrf, hrepr.injective hdense, hrepr.injective hlexical,
    boolText_injective hrewrite, boolText_injective hmulti, Json.intText_injective hcount,
    boolText_injective hhyde⟩

end Members

section Keys

variable [Runtime] {sha256 : String → String}

theorem cacheKey_params (hsha : Function.Injective sha256) {query : String}
    {principal : Principal} {indexVersion promptVersion : String}
    {params params' : List (String × Json)}
    (h : cacheKey sha256 query principal indexVersion promptVersion params
      = cacheKey sha256 query principal indexVersion promptVersion params') :
    (Json.obj params).dumps = (Json.obj params').dumps := by
  rw [cacheKey, cacheKey] at h
  have hscope := hsha h
  rw [String.append_left_inj, String.append_left_inj, cacheScope_eq_digest,
    cacheScope_eq_digest, AnswerScope.digest, AnswerScope.digest] at hscope
  have htext := hsha hscope
  simpa [answerScope, String.append_assoc] using htext

/-- One key, and the listed settings agree exactly when those left out of the key do. -/
theorem sameAnswerSettings_iff (hsha : Function.Injective sha256) (hrepr : FloatReprFaithful)
    (s t : Settings) (query : String) (principal : Principal)
    (indexVersion promptVersion : String)
    (hkey : cacheKey sha256 query principal indexVersion promptVersion s.retrieval.cacheParams
      = cacheKey sha256 query principal indexVersion promptVersion t.retrieval.cacheParams) :
    SameAnswerSettings s t ↔ SameUnkeyedSettings s t := by
  have hcfg := cacheParams_injective hrepr (cacheKey_params hsha hkey)
  constructor
  · intro h
    obtain ⟨hbackend, hopenai⟩ := (buildLlm_eq_iff s t).mp h.llm
    exact ⟨h.refusalScoreThreshold, h.piiRedactionEnabled, h.reranker, hbackend, hopenai⟩
  · intro h
    have hllm := (buildLlm_eq_iff s t).mpr ⟨h.llmBackend, h.openai⟩
    refine ⟨?_, ?_, ?_, ?_, ?_, ?_, ?_, ?_, ?_, h.refusalScoreThreshold, h.piiRedactionEnabled,
      h.reranker, hllm⟩ <;> rw [hcfg]

end Keys

/-- A faithful rendering that agrees with CPython on integral floats. -/
def fractionRepr (q : ℚ) : String := toString q.num ++ "." ++ toString ((q.den : ℤ) - 1)

theorem dot_not_mem_intText (n : ℤ) : '.' ∉ (toString n).toList := by
  intro h
  rcases Json.isDigit_of_mem_intText h with h | h
  · exact absurd h (by decide)
  · exact absurd h (by decide)

theorem fractionRepr_injective : Function.Injective fractionRepr := by
  intro p q h
  have hchars := congrArg String.toList h
  simp only [fractionRepr, String.toList_append, List.append_assoc] at hchars
  obtain ⟨hnum, -, hden⟩ := (List.append_cons_inj_of_notMem (dot_not_mem_intText p.num)
    (dot_not_mem_intText ((p.den : ℤ) - 1))).mp hchars
  have hn := Json.intText_injective (String.toList_inj.mp hnum)
  have hd := Json.intText_injective (String.toList_inj.mp hden)
  exact Rat.ext hn (by omega)

theorem comma_not_mem_fractionRepr (q : ℚ) : ',' ∉ (fractionRepr q).toList := by
  intro h
  simp only [fractionRepr, String.toList_append, List.mem_append] at h
  rcases h with (h | h) | h
  · exact comma_not_mem_intText _ h
  · exact absurd h (by decide)
  · exact comma_not_mem_intText _ h

@[reducible] def Runtime.fractions : Runtime := { Runtime.ascii with floatRepr := fractionRepr }

theorem fractions_faithful : @FloatReprFaithful Runtime.fractions :=
  @FloatReprFaithful.mk Runtime.fractions fractionRepr_injective comma_not_mem_fractionRepr

def caller : Principal where
  subject := "ann"
  groups := ∅
  tenant := "acme"

theorem sameAnswerSettings_iff_redaction :
    @FloatReprFaithful Runtime.fractions ∧
      (SameAnswerSettings {} { piiRedactionEnabled := false }
        ↔ SameUnkeyedSettings {} { piiRedactionEnabled := false }) :=
  ⟨fractions_faithful,
    @sameAnswerSettings_iff Runtime.fractions id Function.injective_id fractions_faithful {}
      { piiRedactionEnabled := false } "who is on call" caller "v1" "v1" rfl⟩

/-- Turning redaction off leaves every key as it is. -/
theorem redaction_outside_key :
    ¬ ∀ (_ : Runtime) (sha256 : String → String), Function.Injective sha256 →
      FloatReprFaithful → ∀ (s t : Settings) (query : String) (principal : Principal)
        (indexVersion promptVersion : String),
        cacheKey sha256 query principal indexVersion promptVersion s.retrieval.cacheParams
            = cacheKey sha256 query principal indexVersion promptVersion
              t.retrieval.cacheParams →
        SameAnswerSettings s t := by
  intro h
  have hsame := h Runtime.fractions id Function.injective_id fractions_faithful {}
    { piiRedactionEnabled := false } "who is on call" caller "v1" "v1" rfl
  exact absurd hsame.piiRedactionEnabled (by decide)

end Rag
