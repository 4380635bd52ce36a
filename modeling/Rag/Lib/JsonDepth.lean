import Rag.Lib.Json

/-!
The nesting limit of the JSON reader only ever refuses: what is read under some limit is read the
same under a higher one.
-/

namespace Py

namespace Json

/-- The second reader reads all the first one reads, and as the same. -/
def Extends {α : Type} (read read' : List Char → Except Error (α × List Char)) : Prop :=
  ∀ cs r, read cs = .ok r → read' cs = .ok r

theorem extends_bind {α β : Type} {x x' : Except Error α} {f f' : α → Except Error β}
    (hx : ∀ a, x = .ok a → x' = .ok a) (hf : ∀ a b, f a = .ok b → f' a = .ok b) {b : β}
    (h : x >>= f = .ok b) : x' >>= f' = .ok b := by
  cases x with
  | error e => cases h
  | ok a =>
      rw [hx a rfl]
      exact hf a b h

theorem Extends.readMembers {α : Type} {item item' : List Char → Except Error (α × List Char)}
    (h : Extends item item') (close : Char) (n : Nat) :
    Extends (readMembers item close n) (readMembers item' close n) := by
  induction n with
  | zero =>
      intro cs r hread
      cases hread
  | succ n ih =>
      intro cs r hread
      refine extends_bind (h cs) ?_ hread
      rintro ⟨v, rest⟩ r hrest
      dsimp only at hrest ⊢
      cases hskip : skipSpace rest with
      | nil =>
          rw [hskip] at hrest
          cases hrest
      | cons c rest =>
          rw [hskip] at hrest
          dsimp only at hrest ⊢
          split_ifs at hrest ⊢
          · exact hrest
          · exact extends_bind (ih (skipSpace rest)) (fun _ _ hr => hr) hrest

theorem Extends.readMember {value value' : List Char → Except Error (Json × List Char)}
    (h : Extends value value') : Extends (readMember value) (readMember value') := by
  intro cs r hread
  unfold Json.readMember at hread ⊢
  split at hread
  · rename_i rest
    cases hkey : readString rest.length rest with
    | none =>
        rw [hkey] at hread
        cases hread
    | some parsed =>
        obtain ⟨key, rest⟩ := parsed
        rw [hkey] at hread
        dsimp only at hread ⊢
        split at hread
        · exact extends_bind (h _) (fun _ _ hr => hr) hread
        · cases hread
  · cases hread

/-- What opens no string, array or object is a number or a constant at any depth. -/
theorem readValue_scalar {c : Char} (hquote : c ≠ '"') (harray : c ≠ '[') (hobject : c ≠ '\x7b')
    (depth : Nat) (cs : List Char) : readValue depth (c :: cs) = readScalar (c :: cs) := by
  unfold readValue
  split <;> simp_all

/-- A higher limit reads what a lower one does. -/
theorem readValue_extends (depth : Nat) : Extends (readValue depth) (readValue (depth + 1)) := by
  induction depth with
  | zero =>
      rintro (_ | ⟨c, cs⟩) r hread
      · exact hread
      by_cases hquote : c = '"'
      · subst hquote
        exact hread
      by_cases harray : c = '['
      · subst harray
        cases hread
      by_cases hobject : c = '\x7b'
      · subst hobject
        cases hread
      rw [readValue_scalar hquote harray hobject] at hread ⊢
      exact hread
  | succ depth ih =>
      rintro (_ | ⟨c, cs⟩) r hread
      · exact hread
      by_cases hquote : c = '"'
      · subst hquote
        exact hread
      by_cases harray : c = '['
      · subst harray
        simp only [readValue] at hread ⊢
        split at hread
        · exact hread
        · exact extends_bind (ih.readMembers _ _ _) (fun _ _ hr => hr) hread
      by_cases hobject : c = '\x7b'
      · subst hobject
        simp only [readValue] at hread ⊢
        split at hread
        · exact hread
        · exact extends_bind (ih.readMember.readMembers _ _ _) (fun _ _ hr => hr) hread
      rw [readValue_scalar hquote harray hobject] at hread ⊢
      exact hread

/-- Every limit from the nesting of a text on reads it. -/
theorem readValue_of_le {depth limit : Nat} (h : depth ≤ limit) :
    Extends (readValue depth) (readValue limit) := by
  induction h with
  | refl => exact fun _ _ hread => hread
  | step _ ih => exact fun cs r hread => readValue_extends _ cs r (ih cs r hread)

end Json

end Py
