import Rag.Agent.Approval

/-!
Which of the cited sources the critic has seen.

`renderSources` drops sources once a character budget is used up, weakest first, while
citations resolve against the whole ledger. Whether a source is shown is decided by the
lengths of the entries before it: a quote that the budget cuts short leaves nothing for
another one, so those entries count in full.
-/

namespace Rag

open Py Interaction AgentRuntime

theorem slice_isPrefix (n : ℤ) (s : String) : (slice n s).toList <+: s.toList := by
  rw [slice, String.toList_ofList, takeInt]
  split_ifs <;> exact List.take_prefix _ _

theorem length_slice {n : ℤ} (hn : 0 ≤ n) (s : String) :
    ((slice n s).length : ℤ) = min n s.length := by
  rw [← String.length_toList, slice, String.toList_ofList, takeInt, if_pos hn, List.length_take,
    String.length_toList]
  omega

/-- A positive bound takes something, a negative one leaves something over. -/
theorem slice_ne_empty_iff (n : ℤ) (s : String) :
    slice n s ≠ "" ↔ s ≠ "" ∧ (0 < n ∨ n < 0 ∧ -n < s.length) := by
  have hlength : s ≠ "" ↔ 0 < s.toList.length := by
    rw [List.length_pos_iff, ne_eq, ne_eq, String.toList_eq_nil_iff]
  rw [hlength, slice, takeInt, ne_eq, String.ofList_eq_empty_iff]
  split_ifs with hn
  · rw [List.take_eq_nil_iff, ← List.length_eq_zero_iff]
    omega
  · rw [List.take_eq_nil_iff, ← List.length_eq_zero_iff, ← String.length_toList]
    omega

section Rendering

variable {maxChars maxQuoteChars : ℤ}

/-- What a source takes of the budget when its quote is not cut short by it. -/
def entryCost (maxQuoteChars : ℤ) (src : Source) : ℤ :=
  (sourceHeader src).length + 1 + min maxQuoteChars src.quote.length + 2

/-- What the stronger sources and the header leave for the quote of `src`. -/
def quoteRoom (maxChars maxQuoteChars : ℤ) (stronger : List Source) (src : Source) : ℤ :=
  maxChars - (stronger.map (entryCost maxQuoteChars)).sum - (sourceHeader src).length - 1

/-- The strongest source has room for some of its quote, any other for at least
`minQuoteChars`. A negative room cuts a quote from its end. -/
def HasRoom (maxChars maxQuoteChars : ℤ) (stronger : List Source) (src : Source) : Prop :=
  let room := quoteRoom maxChars maxQuoteChars stronger src
  if stronger = [] then src.quote = "" ∨ 0 < room ∨ room < 0 ∧ -room < src.quote.length
  else minQuoteChars ≤ room

/-- The entry after those of `stronger` shows the header of `src` and a beginning of its
quote. -/
def ShownAfter (maxChars maxQuoteChars : ℤ) (sources stronger : List Source) (src : Source) :
    Prop :=
  ∃ excerpt, excerpt.toList <+: src.quote.toList ∧ (src.quote ≠ "" → excerpt ≠ "")
    ∧ (renderFrom maxChars maxQuoteChars 0 0 sources)[stronger.length]?
      = some (sourceHeader src ++ "\n" ++ excerpt)

theorem entryCost_nonneg (hquote : 0 ≤ maxQuoteChars) (src : Source) :
    0 ≤ entryCost maxQuoteChars src := by
  unfold entryCost
  omega

theorem sum_entryCost_nonneg (hquote : 0 ≤ maxQuoteChars) (sources : List Source) :
    0 ≤ (sources.map (entryCost maxQuoteChars)).sum := by
  induction sources with
  | nil => exact le_rfl
  | cons src rest ih =>
      rw [List.map_cons, List.sum_cons]
      exact add_nonneg (entryCost_nonneg hquote src) ih

theorem length_entry (header excerpt : String) :
    (header ++ "\n" ++ excerpt).length = header.length + 1 + excerpt.length := by
  rw [String.length_append, String.length_append]
  rfl

/-- The note on what was left out is no entry. -/
theorem note_ne_entry (n : Nat) (src : Source) (excerpt : String) :
    "(" ++ toString n ++ " weaker source(s) omitted to stay within the prompt budget)"
      ≠ sourceHeader src ++ "\n" ++ excerpt := by
  intro h
  have hfirst := congrArg (fun s : String => s.toList.head?) h
  simp [sourceHeader] at hfirst

/-- With room for its quote, a source is shown, and none before it was cut short. -/
theorem renderFrom_shown (hquote : 0 ≤ maxQuoteChars) {stronger weaker : List Source}
    {src : Source} {index : Nat} {used : ℤ}
    (hroom : minQuoteChars ≤ quoteRoom (maxChars - used) maxQuoteChars stronger src) :
    (renderFrom maxChars maxQuoteChars index used (stronger ++ src :: weaker))[stronger.length]?
      = some (sourceHeader src ++ "\n" ++ slice
        (min maxQuoteChars (quoteRoom (maxChars - used) maxQuoteChars stronger src)) src.quote) := by
  induction stronger generalizing index used with
  | nil =>
      simp only [quoteRoom, List.map_nil, List.sum_nil, sub_zero] at hroom ⊢
      rw [List.nil_append, renderFrom, if_neg (by omega)]
      rfl
  | cons first rest ih =>
      have hrest := sum_entryCost_nonneg hquote rest
      have hcost : entryCost maxQuoteChars first
          = (sourceHeader first).length + 1 + min maxQuoteChars first.quote.length + 2 := rfl
      have hmin : minQuoteChars = 120 := rfl
      simp only [quoteRoom, List.map_cons, List.sum_cons] at hroom
      have hleft : min maxQuoteChars (first.quote.length : ℤ)
          ≤ maxChars - used - (sourceHeader first).length - 1 := by
        omega
      have hlength : ((sourceHeader first ++ "\n" ++ slice (min maxQuoteChars
          (maxChars - used - (sourceHeader first).length - 1)) first.quote).length : ℤ) + 2
          = entryCost maxQuoteChars first := by
        rw [length_entry]
        push_cast
        rw [length_slice (by omega)]
        omega
      have hsame : quoteRoom (maxChars - used) maxQuoteChars (first :: rest) src
          = quoteRoom (maxChars - (used + entryCost maxQuoteChars first)) maxQuoteChars rest src := by
        simp only [quoteRoom, List.map_cons, List.sum_cons]
        omega
      rw [List.cons_append, renderFrom, if_neg (by omega)]
      dsimp only
      rw [add_assoc, hlength, List.length_cons, List.getElem?_cons_succ, hsame]
      apply ih
      rw [← hsame]
      simp only [quoteRoom, List.map_cons, List.sum_cons]
      omega

/-- Without that room, a source that is not the first of all is left out. -/
theorem renderFrom_omitted (hquote : 0 ≤ maxQuoteChars) {stronger weaker : List Source}
    {src : Source} {index : Nat} {used : ℤ} (hlater : 0 < index ∨ stronger ≠ [])
    (hroom : quoteRoom (maxChars - used) maxQuoteChars stronger src < minQuoteChars)
    (excerpt : String) :
    (renderFrom maxChars maxQuoteChars index used (stronger ++ src :: weaker))[stronger.length]?
      ≠ some (sourceHeader src ++ "\n" ++ excerpt) := by
  induction stronger generalizing index used with
  | nil =>
      simp only [quoteRoom, List.map_nil, List.sum_nil, sub_zero] at hroom
      have hindex : 0 < index := by simpa using hlater
      rw [List.nil_append, renderFrom, if_pos ⟨hroom, hindex⟩]
      intro h
      exact note_ne_entry _ src excerpt (Option.some.inj h)
  | cons first rest ih =>
      rw [List.cons_append, renderFrom]
      dsimp only
      split_ifs with homitted
      · simp
      · rw [List.length_cons, List.getElem?_cons_succ]
        refine ih (Or.inl (Nat.succ_pos _)) ?_
        have hrest := sum_entryCost_nonneg hquote rest
        have hcost : entryCost maxQuoteChars first
            = (sourceHeader first).length + 1 + min maxQuoteChars first.quote.length + 2 := rfl
        have hmin : minQuoteChars = 120 := rfl
        simp only [quoteRoom, List.map_cons, List.sum_cons] at hroom ⊢
        rw [length_entry]
        push_cast
        by_cases hleft : 0 ≤ maxChars - used - (sourceHeader first).length - 1
        · -- the entry is complete, or takes all that is left
          rw [length_slice (by omega)]
          omega
        · omega

/-- A source is shown exactly when it has room. -/
theorem shownAfter_iff (hquote : 0 < maxQuoteChars) (stronger : List Source) (src : Source)
    (weaker : List Source) :
    ShownAfter maxChars maxQuoteChars (stronger ++ src :: weaker) stronger src
      ↔ HasRoom maxChars maxQuoteChars stronger src := by
  unfold HasRoom
  dsimp only
  split_ifs with hfirst
  · subst hfirst
    have hentry : (renderFrom maxChars maxQuoteChars 0 0 ([] ++ src :: weaker))[0]?
        = some (sourceHeader src ++ "\n" ++ slice
          (min maxQuoteChars (quoteRoom maxChars maxQuoteChars [] src)) src.quote) := by
      rw [List.nil_append, renderFrom, if_neg (by simp)]
      simp [quoteRoom]
    have hsome := slice_ne_empty_iff
      (min maxQuoteChars (quoteRoom maxChars maxQuoteChars [] src)) src.quote
    constructor
    · rintro ⟨excerpt, -, hnonempty, hshown⟩
      rw [List.length_nil, hentry] at hshown
      have hsame := (String.append_right_inj _).mp (Option.some.inj hshown)
      by_cases hempty : src.quote = ""
      · exact Or.inl hempty
      · rw [← hsame, hsome] at hnonempty
        obtain ⟨-, hcut⟩ := hnonempty hempty
        omega
    · intro hroom
      refine ⟨_, slice_isPrefix _ _, ?_, hentry⟩
      intro hquoted
      refine hsome.mpr ⟨hquoted, ?_⟩
      rcases hroom with hempty | hroom
      · exact absurd hempty hquoted
      · omega
  · have hzero : maxChars - 0 = maxChars := sub_zero _
    constructor
    · rintro ⟨excerpt, -, -, hshown⟩
      by_contra hroom
      refine renderFrom_omitted hquote.le (Or.inr hfirst) ?_ excerpt hshown
      rw [hzero]
      omega
    · intro hroom
      have hentry : (renderFrom maxChars maxQuoteChars 0 0
          (stronger ++ src :: weaker))[stronger.length]?
          = some (sourceHeader src ++ "\n" ++ slice (min maxQuoteChars
            (quoteRoom (maxChars - 0) maxQuoteChars stronger src)) src.quote) := by
        apply renderFrom_shown hquote.le
        rw [hzero]
        exact hroom
      refine ⟨_, slice_isPrefix _ _, ?_, hentry⟩
      intro hquoted
      refine (slice_ne_empty_iff _ _).mpr ⟨hquoted, ?_⟩
      rw [hzero]
      simp only [minQuoteChars] at hroom
      omega

end Rendering

section Turns

variable [Runtime]

/-- For every turn that the critic approved: a source the answer cites was in the prompt of
the approving call, header and quote, exactly when the budget of the critic had room for
it. -/
theorem cited_seen_iff (rt : AgentRuntime) (question : String) (principal : Principal)
    (budget : Option Budget) (env : Prog.Env AgentOp AgentResp) (answer : AgentAnswer)
    (h : (run rt question principal budget).result env = some (.ok answer))
    (hstop : answer.stopReason = .criticGrounded) :
    let t := (run rt question principal budget).trace env
    ∃ s c judgement verdict before after,
      ExitedBy rt question principal budget (.stopped s .criticGrounded) t (.ok answer)
      ∧ Approved rt question t answer s c judgement verdict before after
      ∧ (∀ citation ∈ answer.citations, ∃ source ∈ s.ledger.sources,
        citation = citationFromSource source)
      ∧ ∀ stronger source weaker, s.ledger.sources = stronger ++ source :: weaker →
        citationFromSource source ∈ answer.citations →
        (ShownAfter rt.criticMaxEvidenceChars 500 s.ledger.sources stronger source
          ↔ HasRoom rt.criticMaxEvidenceChars 500 stronger source) := by
  intro t
  have hruns := Prog.runs_trace env (run rt question principal budget)
  rw [h] at hruns
  obtain ⟨exit, hleft⟩ := run_left hruns
  obtain ⟨s, c, judgement, verdict, before, after, rfl, happroved⟩ :=
    approved_of_left hleft hstop
  refine ⟨s, c, judgement, verdict, before, after, hleft, happroved, ?_, ?_⟩
  · intro citation hcitation
    rw [happroved.citations] at hcitation
    exact mem_resolveSourceCitations hcitation
  · intro stronger source weaker hsources _
    rw [hsources]
    exact shownAfter_iff (by decide) stronger source weaker

end Turns

def twoSources : ToolResult where
  callId := "c1"
  name := "search"
  content := "found"
  sources := [{ kind := .chunk, ref := "doc1" }, { kind := .chunk, ref := "doc2" }]

/-- The draft cites both sources, and the critic approves. -/
def citingAnswers : (o : AgentOp) → AgentResp o
  | .chat messages _ => .ok (if messages.length = 2 then searchCompletion
      else completionOf "Found in [doc1] and [doc2]." 1)
  | .critique _ =>
      .ok (completionOf "\x7b\"sufficient\": true, \"grounded\": true\x7d" 1)
  | o => searchAnswers twoSources o

def citedRefs : Option (Except Exn AgentAnswer) → List String
  | some (.ok answer) => answer.citations.map Citation.ref
  | _ => []

theorem cited_seen_iff_two : let _ := Runtime.ascii
    let turn := run searchRuntime searchTurn.question searchTurn.principal none
    let env : Prog.Env AgentOp AgentResp := fun _ => citingAnswers
    ∃ answer, turn.result env = some (.ok answer) ∧ ∃ s c judgement verdict before after,
      Approved searchRuntime searchTurn.question (turn.trace env) answer s c judgement verdict
        before after := by
  intro _ turn env
  have hstop : stopOf (turn.result env) = some .criticGrounded := by decide +kernel
  obtain ⟨answer, hanswer, hgrounded⟩ := answered_of_stopOf hstop
  obtain ⟨s, c, judgement, verdict, before, after, -, happroved, -⟩ :=
    cited_seen_iff searchRuntime searchTurn.question searchTurn.principal none env answer
      hanswer hgrounded
  exact ⟨answer, hanswer, s, c, judgement, verdict, before, after, happroved⟩

/-- Of two different sources one is not the first. -/
theorem later_of_two {sources : List Source} {first second : Source} (hfirst : first ∈ sources)
    (hsecond : second ∈ sources) (hne : first ≠ second) :
    ∃ stronger source weaker, sources = stronger ++ source :: weaker ∧ stronger ≠ []
      ∧ (source = first ∨ source = second) := by
  cases sources with
  | nil => cases hfirst
  | cons top rest =>
      have hlater : ∀ source ∈ rest, ∃ stronger weaker,
          top :: rest = stronger ++ source :: weaker ∧ stronger ≠ [] := by
        intro source hsource
        obtain ⟨u, v, rfl⟩ := List.append_of_mem hsource
        exact ⟨top :: u, v, rfl, by simp⟩
      rcases List.mem_cons.mp hfirst with rfl | hfirst
      · rcases List.mem_cons.mp hsecond with rfl | hsecond
        · exact absurd rfl hne
        · obtain ⟨stronger, weaker, hsplit, hsome⟩ := hlater second hsecond
          exact ⟨stronger, second, weaker, hsplit, hsome, Or.inr rfl⟩
      · obtain ⟨stronger, weaker, hsplit, hsome⟩ := hlater first hfirst
        exact ⟨stronger, first, weaker, hsplit, hsome, Or.inl rfl⟩

/-- With fewer than `minQuoteChars` for all its evidence the critic approves a draft that
cites a source it was not shown. -/
theorem unseen_source_cited : ¬ ∀ (_ : Runtime) (rt : AgentRuntime) (question : String)
    (principal : Principal) (budget : Option Budget) (env : Prog.Env AgentOp AgentResp)
    (answer : AgentAnswer),
    (run rt question principal budget).result env = some (.ok answer) →
    answer.stopReason = .criticGrounded →
    ∀ s c judgement verdict before after,
      ExitedBy rt question principal budget (.stopped s .criticGrounded)
        ((run rt question principal budget).trace env) (.ok answer) →
      Approved rt question ((run rt question principal budget).trace env) answer s c judgement
        verdict before after →
      ∀ stronger source weaker, s.ledger.sources = stronger ++ source :: weaker →
        citationFromSource source ∈ answer.citations →
        ShownAfter rt.criticMaxEvidenceChars 500 s.ledger.sources stronger source := by
  intro h
  let _ := Runtime.ascii
  let rt : AgentRuntime := { searchRuntime with criticMaxEvidenceChars := 100 }
  let turn := run rt searchTurn.question searchTurn.principal none
  let env : Prog.Env AgentOp AgentResp := fun _ => citingAnswers
  have hstop : stopOf (turn.result env) = some .criticGrounded := by decide +kernel
  have hrefs : citedRefs (turn.result env) = ["doc1", "doc2"] := by decide +kernel
  obtain ⟨answer, hanswer, hgrounded⟩ := answered_of_stopOf hstop
  have hruns := Prog.runs_trace env turn
  rw [hanswer] at hruns hrefs
  obtain ⟨exit, hleft⟩ := run_left hruns
  obtain ⟨s, c, judgement, verdict, before, after, rfl, happroved⟩ :=
    approved_of_left hleft hgrounded
  have hcited : ∀ ref ∈ ["doc1", "doc2"], ∃ source ∈ s.ledger.sources, source.ref = ref
      ∧ citationFromSource source ∈ answer.citations := by
    intro ref href
    rw [← hrefs] at href
    obtain ⟨citation, hcitation, rfl⟩ := List.mem_map.mp href
    have hresolved := hcitation
    rw [happroved.citations] at hresolved
    obtain ⟨source, hsource, rfl⟩ := mem_resolveSourceCitations hresolved
    exact ⟨source, hsource, rfl, hcitation⟩
  obtain ⟨first, hfirst, href1, hcited1⟩ := hcited "doc1" (by simp)
  obtain ⟨second, hsecond, href2, hcited2⟩ := hcited "doc2" (by simp)
  have hne : first ≠ second := by
    rintro rfl
    rw [href1] at href2
    simp at href2
  obtain ⟨stronger, source, weaker, hsplit, hlater, hwhich⟩ := later_of_two hfirst hsecond hne
  have hin : citationFromSource source ∈ answer.citations := by
    rcases hwhich with rfl | rfl
    · exact hcited1
    · exact hcited2
  have hshown := h _ rt searchTurn.question searchTurn.principal none env answer hanswer hgrounded
    s c judgement verdict before after hleft happroved stronger source weaker hsplit hin
  rw [hsplit, shownAfter_iff (by decide), HasRoom, if_neg hlater] at hshown
  have hcosts := sum_entryCost_nonneg (show (0 : ℤ) ≤ 500 by decide) stronger
  simp only [quoteRoom, rt, minQuoteChars] at hshown
  omega

end Rag
