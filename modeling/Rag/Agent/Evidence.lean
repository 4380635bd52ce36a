import Rag.Agent.Schemas
import Rag.Lib.Dict

/-!
`rag.agent.evidence`: the ledger of one turn and its rendering under a character budget.
-/

namespace Rag

open Py

def minQuoteChars : ℤ := 120

/-- Accumulated sources for one turn, deduplicated by ref. -/
structure EvidenceLedger where
  maxChars : ℤ := 6000
  maxQuoteChars : ℤ := 500
  byRef : Dict String Source := .empty

namespace EvidenceLedger

/-- Record one observation; the best-scoring one of each ref is kept. The second part
is the source when its ref is new. -/
def addOne (ledger : EvidenceLedger) (source : Source) : EvidenceLedger × List Source :=
  match ledger.byRef.get? source.ref with
  | none => ({ ledger with byRef := ledger.byRef.set source.ref source }, [source])
  | some previous =>
      if previous.score < source.score then
        ({ ledger with byRef := ledger.byRef.set source.ref source }, [])
      else (ledger, [])

/-- Merge sources in order; returns the refs that were not already known. -/
def add (ledger : EvidenceLedger) : List Source → EvidenceLedger × List Source
  | [] => (ledger, [])
  | source :: rest =>
      let (ledger, new) := ledger.addOne source
      let (ledger, added) := ledger.add rest
      (ledger, new ++ added)

/-- All known sources, strongest first. -/
def sources (ledger : EvidenceLedger) : List Source :=
  PyFloat.sortedDesc Source.score ledger.byRef.values

theorem mem_addOne {ledger : EvidenceLedger} {source s : Source}
    (h : s ∈ (ledger.addOne source).1.byRef.values) : s = source ∨ s ∈ ledger.byRef.values := by
  unfold addOne at h
  split at h
  · exact Dict.mem_values_set h
  · split_ifs at h
    · exact Dict.mem_values_set h
    · exact Or.inr h

theorem mem_add {ledger : EvidenceLedger} {sources : List Source} {s : Source}
    (h : s ∈ (ledger.add sources).1.byRef.values) : s ∈ sources ∨ s ∈ ledger.byRef.values := by
  induction sources generalizing ledger with
  | nil => exact Or.inr h
  | cons source rest ih =>
      rcases ih h with h | h
      · exact Or.inl (List.mem_cons_of_mem _ h)
      · rcases mem_addOne h with rfl | h
        · exact Or.inl List.mem_cons_self
        · exact Or.inr h

theorem mem_sources {ledger : EvidenceLedger} {s : Source} :
    s ∈ ledger.sources ↔ s ∈ ledger.byRef.values :=
  PyFloat.mem_sortedDesc

end EvidenceLedger

/-- `[ref] kind=.. doc=.. score=..` with the title when there is one. -/
def sourceHeader (src : Source) : String :=
  "[" ++ src.ref ++ "] kind=" ++ src.kind.value ++ " doc=" ++ src.docId ++ " score="
    ++ src.score.format 4 ++ (if src.title = "" then "" else " title=" ++ src.title)

/-- The loop of `renderSources` from position `index` with `used` characters spent. The
first source is shown whatever is left of the budget. -/
def renderFrom (maxChars maxQuoteChars : ℤ) : Nat → ℤ → List Source → List String
  | _, _, [] => []
  | index, used, src :: rest =>
      let header := sourceHeader src
      let budgetLeft := maxChars - used - header.length - 1
      if budgetLeft < minQuoteChars ∧ 0 < index then
        ["(" ++ toString (rest.length + 1)
          ++ " weaker source(s) omitted to stay within the prompt budget)"]
      else
        let entry := header ++ "\n" ++ slice (min maxQuoteChars budgetLeft) src.quote
        entry :: renderFrom maxChars maxQuoteChars (index + 1) (used + entry.length + 2) rest

/-- Render sources for planner and critic prompts, bounded by `maxChars`. -/
def renderSources (sources : List Source) (maxChars maxQuoteChars : ℤ) : String :=
  if sources = [] then "(none)"
  else join "\n\n" (renderFrom maxChars maxQuoteChars 0 0 sources)

def EvidenceLedger.render (ledger : EvidenceLedger) : String :=
  renderSources ledger.sources ledger.maxChars ledger.maxQuoteChars

end Rag
