import Rag.Lib.Json

/-!
Exceptions, as far as handlers of the modelled code tell them apart.
-/

namespace Rag

/-- The class an `except` clause selects by. -/
inductive ExnClass where
  /-- `TimeoutError` -/
  | timeout
  /-- `ValueError` and its subclasses -/
  | value
  /-- `KeyError` -/
  | key
  /-- `rag.llm.errors.LLMError` and its subclasses -/
  | llm
  /-- any other `Exception` -/
  | other
deriving DecidableEq

/-- A raised exception: its class, `type(exc).__name__` and `str(exc)`. -/
structure Exn where
  cls : ExnClass
  name : String
  text : String
deriving DecidableEq

def Exn.isTimeout (exn : Exn) : Bool := exn.cls = .timeout

def valueError (text : String) : Exn := ⟨.value, "ValueError", text⟩

def typeError (text : String) : Exn := ⟨.other, "TypeError", text⟩

def zeroDivisionError : Exn := ⟨.other, "ZeroDivisionError", "float division by zero"⟩

/-- `str` of a `KeyError` is the `repr` of its message. -/
def keyError [Py.Runtime] (message : String) : Exn :=
  ⟨.key, "KeyError", Py.Runtime.repr (.str message)⟩

def missingBackendError (backend extra : String) : Exn where
  cls := .other
  name := "MissingBackendError"
  text := backend ++ " requires the '" ++ extra ++ "' extra. Install with: uv sync --extra "
    ++ extra

def indexError : Exn := ⟨.other, "IndexError", "list index out of range"⟩

def recursionError : Exn :=
  ⟨.other, "RecursionError", "maximum recursion depth exceeded"⟩

/-- A composition returns when both of its parts do. -/
theorem ok_of_bind {α β : Type} {x : Except Exn α} {f : α → Except Exn β} {b : β}
    (h : x >>= f = .ok b) : ∃ a, x = .ok a ∧ f a = .ok b := by
  cases x with
  | error exn => cases h
  | ok a => exact ⟨a, rfl, h⟩

/-- A composition raises what its first part does, or what the second does after it. -/
theorem error_of_bind {α β : Type} {x : Except Exn α} {f : α → Except Exn β} {exn : Exn}
    (h : x >>= f = .error exn) : x = .error exn ∨ ∃ a, x = .ok a ∧ f a = .error exn := by
  cases x with
  | error raised =>
      cases h
      exact .inl rfl
  | ok a => exact .inr ⟨a, rfl, h⟩

theorem ok_of_toOption {α β : Type} {x : Except Exn α} {f : α → β} {b : β}
    (h : x.toOption.map f = some b) : ∃ a, x = .ok a ∧ f a = b := by
  cases x with
  | error exn => cases h
  | ok a => exact ⟨a, rfl, Option.some.inj h⟩

end Rag
