import Rag.Lib.Dict
import Mathlib.Data.Rat.Defs
import Mathlib.Algebra.Order.Ring.Rat

/-!
`rag.cache.memory`: the in-process TTL cache.

The clock reading is a parameter of every operation. A time to live of zero is falsy, and
such an entry has no expiry.
-/

namespace Rag

open Py

/-- In-process TTL cache. -/
structure MemoryCache (κ V : Type) where
  store : Dict κ (V × Option ℚ) := .empty

namespace MemoryCache

variable {κ V : Type} [DecidableEq κ] (cache : MemoryCache κ V)

/-- `expires is not None and time.time() > expires` -/
def expired (now : ℚ) : Option ℚ → Bool
  | some expires => expires < now
  | none => false

/-- `get`; an expired entry is dropped on the way. -/
def get (now : ℚ) (key : κ) : Option V × MemoryCache κ V :=
  match cache.store.get? key with
  | none => (none, cache)
  | some (value, expires) =>
      if expired now expires then (none, ⟨cache.store.erase key⟩) else (some value, cache)

/-- `time.time() + ttl_seconds if ttl_seconds else None` -/
def expiry (now : ℚ) : Option ℤ → Option ℚ
  | some ttlSeconds => if ttlSeconds = 0 then none else some (now + ttlSeconds)
  | none => none

def set (now : ℚ) (key : κ) (value : V) (ttlSeconds : Option ℤ) : MemoryCache κ V :=
  ⟨cache.store.set key (value, expiry now ttlSeconds)⟩

def delete (key : κ) : MemoryCache κ V := ⟨cache.store.erase key⟩

variable {cache}

/-- A hit is a stored entry that has not expired. -/
theorem get_hit {now : ℚ} {key : κ} {value : V} (h : (cache.get now key).1 = some value) :
    ∃ expires, cache.store.get? key = some (value, expires) ∧ expired now expires = false := by
  rw [get] at h
  split at h
  · cases h
  · rename_i stored expires hstored
    split_ifs at h with hexpired
    cases h
    exact ⟨expires, hstored, by simpa using hexpired⟩

/-- Reading only ever drops entries. -/
theorem get_store {now : ℚ} {key key' : κ} {entry : V × Option ℚ}
    (h : (cache.get now key).2.store.get? key' = some entry) :
    cache.store.get? key' = some entry := by
  rw [get] at h
  split at h
  · exact h
  · split_ifs at h
    · rw [Dict.get?_erase] at h
      split_ifs at h
      exact h
    · exact h

end MemoryCache

end Rag
