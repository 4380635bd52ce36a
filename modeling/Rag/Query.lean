import Rag.Lib.Json

/-!
`rag.query`: rewriting, multi-query expansion, the HyDE passage and the router.
-/

namespace Rag

open Py

def normalizeWhitespace (text : String) : String := strip (collapse text)

/-- `re.sub(r"[?!.]+$", "", text)`. -/
def dropTrailingMarks (text : String) : String :=
  String.ofList (text.toList.reverse.dropWhile fun c => c = '?' || c = '!' || c = '.').reverse

section Query

variable [Runtime]

/-- Normalize and lightly expand a user query, primary variant first. -/
def rewriteQuery (query : String) : List String :=
  let cleaned := normalizeWhitespace query
  if cleaned = "" then []
  else
    let alt := strip (dropTrailingMarks cleaned)
    if alt ≠ "" ∧ Runtime.lower alt ≠ Runtime.lower cleaned then [cleaned, alt] else [cleaned]

/-- The loop of `expandMultiQuery`: append new extras until there are `n` variants. -/
def addExtras (n : ℤ) : List String → List String → List String
  | variants, [] => variants
  | variants, e :: extras =>
      let variants := if e ∈ variants then variants else variants ++ [e]
      if n ≤ variants.length then variants else addExtras n variants extras

/-- Up to `n` query variants for multi-query retrieval. -/
def expandMultiQuery (query : String) (n : ℤ) : List String :=
  match rewriteQuery query with
  | [] => []
  | primary :: rest =>
      let extras :=
        ["information about " ++ primary, "details on " ++ primary, "explain " ++ primary]
      takeInt n (addExtras n (primary :: rest) extras)

def hydeDocument (query : String) : String :=
  let cleaned := strip query
  if cleaned = "" then ""
  else
    "This document answers the question: " ++ cleaned
      ++ ". It provides factual background, definitions, and supporting details relevant to: "
      ++ cleaned ++ "."

inductive QueryRoute where
  | factual
  | procedural
  | complex
  | chitchat
  | refuse
deriving DecidableEq

def complexMarkers : List String :=
  ["compare", "comparison", "versus", " vs ", "vs.", "difference between",
    "differences between", "both ", "relate", "relationship between", "how does", "how do ",
    "multi-hop", "and also", "on the other hand", "pros and cons", "trade-off", "tradeoff"]

def greetings : List String := ["hi", "hello", "hey", "thanks", "thank you"]

def routeQuery (query : String) : QueryRoute :=
  let q := strip (Runtime.lower query)
  if q = "" then .refuse
  else if q ∈ greetings ∨ ["hi ", "hello ", "hey "].any (startsWith q) then .chitchat
  else if complexMarkers.any (contains q) then .complex
  else if ["how do i", "how to", "steps to", "procedure"].any (contains q) then .procedural
  else .factual

/-- The mode a request asks for. -/
inductive QueryMode where
  | auto
  | fast
  | agent
deriving DecidableEq

/-- Decide whether this request should enter the agent runtime. -/
def shouldUseAgent (query : String) (mode : QueryMode) (agentEnabled : Bool) : Bool :=
  if !agentEnabled then false
  else if mode = .fast then false
  else if mode = .agent then true
  else routeQuery query = .complex

end Query

end Rag
