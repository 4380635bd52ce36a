import Rag.Eval.AgentRunner
import Rag.Lib.Fields
import Rag.VectorDb.Memory

/-!
`rag.eval.runner` with the metrics of `rag.eval.metrics.retrieval` and `rag.eval.metrics.generation`
and the report of `rag.eval.report`.

`EvalRunner.run` is a program over the two callables it is handed. The metrics are computed in a
field `K` whose logarithm is that of `Math`.
-/

namespace Rag

open Py Interaction

section Retrieval

variable {K : Type} [Field K] [LinearOrder K] [Math K]

/-- `xs[:k]` -/
def sliceTo {α : Type} (k : ℤ) (xs : List α) : List α := xs.take (sliceBound xs.length k)

def recallAtK (retrieved relevant : List String) (k : ℤ) : K :=
  if relevant = [] then 0
  else
    let top := (sliceTo k retrieved).toFinset
    let hits := top ∩ relevant.toFinset
    hits.card / relevant.toFinset.card

/-- The loop of `mrr` from the position `i` on. -/
def mrrFrom (relevant : Finset String) : Nat → List String → K
  | _, [] => 0
  | i, rid :: rest => if rid ∈ relevant then 1 / i else mrrFrom relevant (i + 1) rest

def mrr (retrieved relevant : List String) : K := mrrFrom relevant.toFinset 1 retrieved

/-- `math.log2` -/
def log2 (x : K) : K := Math.log x / Math.log ((2 : ℕ) : K)

/-- `1.0 / math.log2(i + 1)` -/
def discount (i : Nat) : K := 1 / log2 ((i : K) + 1)

/-- The loop of `ndcg_at_k`. -/
def dcg (relevant : Finset String) (top : List String) : K :=
  (top.zipIdx 1).foldl (fun dcg (rid, i) => if rid ∈ relevant then dcg + discount i else dcg) 0

def ndcgAtK (retrieved relevant : List String) (k : ℤ) : K :=
  let wanted := relevant.toFinset
  if wanted = ∅ then 0
  else
    let gain := dcg wanted (sliceTo k retrieved)
    let idealHits := min (wanted.card : ℤ) k
    let idcg : K := ((List.range' 1 idealHits.toNat).map discount).sum
    if idcg = 0 then 0 else gain / idcg

end Retrieval

section Generation

variable {K : Type} [Field K] [Runtime]

/-- `set(text.lower().split())` -/
def tokens (text : String) : Finset String := (fields (Runtime.lower text)).toFinset

/-- Token-overlap faithfulness proxy. -/
def faithfulness (answer : String) (contexts : List String) : K :=
  if strip answer = "" ∨ contexts = [] then 0
  else
    let answerTokens := tokens answer
    let ctxTokens := contexts.foldl (fun seen c => seen ∪ tokens c) ∅
    if answerTokens = ∅ then 0 else (answerTokens ∩ ctxTokens).card / answerTokens.card

/-- Simple lexical relevance between answer and question. -/
def answerRelevance (answer question : String) : K :=
  if strip answer = "" ∨ strip question = "" then 0
  else
    let a := tokens answer
    let q := tokens question
    if q = ∅ then 0 else (a ∩ q).card / q.card

end Generation

structure EvalCaseResult (K : Type) where
  exampleId : String
  recallAt5 : K
  recallAt10 : K
  mrr : K
  ndcgAt10 : K
  faithfulness : K
  answerRelevance : K
  refused : Bool

structure EvalReport (K : Type) where
  n : ℤ
  recallAt5 : K
  recallAt10 : K
  mrr : K
  ndcgAt10 : K
  faithfulness : K
  answerRelevance : K
  refusalRate : K
  cases : List (EvalCaseResult K) := []

/-- The mean of a score; `len(cases) or 1` is what it is divided by. -/
def mean {K : Type} [Field K] (score : EvalCaseResult K → K) (cases : List (EvalCaseResult K)) :
    K :=
  (cases.map score).sum / (if cases = [] then 1 else cases.length : ℕ)

def EvalReport.fromCases {K : Type} [Field K] (cases : List (EvalCaseResult K)) : EvalReport K where
  n := cases.length
  recallAt5 := mean EvalCaseResult.recallAt5 cases
  recallAt10 := mean EvalCaseResult.recallAt10 cases
  mrr := mean EvalCaseResult.mrr cases
  ndcgAt10 := mean EvalCaseResult.ndcgAt10 cases
  faithfulness := mean EvalCaseResult.faithfulness cases
  answerRelevance := mean EvalCaseResult.answerRelevance cases
  refusalRate := mean (fun c => if c.refused then 1 else 0) cases
  cases := cases

/-- The callables of the runner. -/
inductive EvalOp where
  | retrieve (question : String)
  | generate (question : String) (qr : QueryResult)

def EvalResp : EvalOp → Type
  | .retrieve _ => Except Exn QueryResult
  | .generate _ _ => Except Exn Answer

abbrev EvalProg := Prog EvalOp EvalResp

/-- `self.retrieve_fn(question)` -/
def retrieveFn (question : String) : EvalProg (Except Exn QueryResult) :=
  Prog.perform (EvalOp.retrieve question)

/-- `self.generate_fn(question, qr)` -/
def generateFn (question : String) (qr : QueryResult) : EvalProg (Except Exn Answer) :=
  Prog.perform (EvalOp.generate question qr)

/-- `ex.relevant_chunk_ids or ex.relevant_doc_ids` -/
def GoldenExample.relevant (ex : GoldenExample) : List String :=
  if ex.relevantChunkIds = [] then ex.relevantDocIds else ex.relevantChunkIds

/-- The ids of what was retrieved, of the kind that the example names. -/
def GoldenExample.retrieved (ex : GoldenExample) (qr : QueryResult) : List String :=
  if ex.relevantChunkIds = [] then qr.results.map fun s => s.chunk.docId
  else qr.results.map fun s => s.chunk.chunkId

namespace EvalRunner

variable {K : Type} [Field K] [LinearOrder K] [Math K] [Runtime]

/-- How an answer and what was retrieved for it are scored. -/
def evalCase (ex : GoldenExample) (qr : QueryResult) (answer : Answer) : EvalCaseResult K where
  exampleId := ex.id
  recallAt5 := recallAtK (ex.retrieved qr) ex.relevant 5
  recallAt10 := recallAtK (ex.retrieved qr) ex.relevant 10
  mrr := mrr (ex.retrieved qr) ex.relevant
  ndcgAt10 := ndcgAtK (ex.retrieved qr) ex.relevant 10
  faithfulness := faithfulness answer.text (qr.results.map fun s => s.chunk.text)
  answerRelevance := answerRelevance answer.text ex.question
  refused := answer.refused

/-- The loop of `run`. -/
def runCases : List GoldenExample → EvalProg (Except Exn (List (EvalCaseResult K)))
  | [] => pure (.ok [])
  | ex :: rest => do
      match ← retrieveFn ex.question with
      | .error exn => pure (.error exn)
      | .ok qr =>
          match ← generateFn ex.question qr with
          | .error exn => pure (.error exn)
          | .ok answer => do
              let tail ← runCases rest
              pure (tail.map fun cases => evalCase ex qr answer :: cases)

def run (dataset : List GoldenExample) : EvalProg (Except Exn (EvalReport K)) := do
  let cases ← runCases dataset
  pure (cases.map EvalReport.fromCases)

end EvalRunner

end Rag
