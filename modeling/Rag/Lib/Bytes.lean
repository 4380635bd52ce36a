import Mathlib.Data.List.Basic
import Mathlib.Data.String.Basic

/-!
Byte strings: what `str.encode` makes of a text, and parts that each end in a stop byte.

UTF-8 leaves ASCII as it is and writes every other character in bytes beyond ASCII, so a
byte below 128 is a character of the text. A sequence of parts is recovered from its bytes
when the stop occurs in none of them.
-/

namespace Py

/-- `s.encode()` -/
def utf8 (s : String) : List UInt8 := s.toUTF8.toList

theorem byteArray_loop (bytes : ByteArray) (i : Nat) (read : List UInt8) :
    ByteArray.toList.loop bytes i read = read.reverse ++ bytes.data.toList.drop i := by
  fun_induction ByteArray.toList.loop bytes i read with
  | case1 i read hlt ih =>
      have hlength : i < bytes.data.toList.length := by simpa using hlt
      have hget : bytes.get! i = bytes.data.toList[i] := by simp [ByteArray.get!, hlt]
      rw [ih, List.reverse_cons, List.append_assoc, hget, List.singleton_append,
        List.getElem_cons_drop]
  | case2 i read hle =>
      have hdone : bytes.data.toList.length ≤ i := by simpa using Nat.not_lt.mp hle
      rw [List.drop_eq_nil_of_le hdone, List.append_nil]

theorem utf8_eq (s : String) : utf8 s = s.toList.flatMap String.utf8EncodeChar := by
  rw [utf8, ByteArray.toList, byteArray_loop, String.toUTF8_eq_toByteArray,
    ← String.utf8Encode_toList, List.utf8Encode]
  simp

theorem utf8_injective : Function.Injective utf8 := by
  intro s t h
  rw [utf8_eq, utf8_eq] at h
  have hbytes : s.toList.utf8Encode = t.toList.utf8Encode := by
    rw [List.utf8Encode, List.utf8Encode, h]
  rw [String.utf8Encode_toList, String.utf8Encode_toList] at hbytes
  exact String.toByteArray_inj.mp hbytes

theorem utf8EncodeChar_of_ascii {c : Char} (h : c.toNat < 128) :
    String.utf8EncodeChar c = [UInt8.ofNat c.toNat] := by
  have hle : c.val.toNat ≤ 127 := Nat.le_of_lt_succ h
  rw [String.utf8EncodeChar]
  exact if_pos hle

/-- A character beyond ASCII is written in bytes beyond ASCII. -/
theorem utf8EncodeChar_of_not_ascii {c : Char} (h : 128 ≤ c.toNat) :
    ∀ b ∈ String.utf8EncodeChar c, 128 ≤ b.toNat := by
  have hlong : ¬ c.val.toNat ≤ 127 := by
    have hval : c.val.toNat = c.toNat := rfl
    omega
  intro b hb
  rw [String.utf8EncodeChar, if_neg hlong] at hb
  split_ifs at hb
  all_goals
    revert b
    simp only [List.forall_mem_cons, UInt8.toNat_ofNat', List.not_mem_nil, false_implies,
      implies_true, and_true]
    omega

theorem mem_utf8 {s : String} {b : UInt8} :
    b ∈ utf8 s ↔ ∃ c ∈ s.toList, b ∈ String.utf8EncodeChar c := by
  rw [utf8_eq, List.mem_flatMap]

/-- A text has a NUL byte exactly when it has a NUL character. -/
theorem zero_mem_utf8_iff (s : String) : 0 ∈ utf8 s ↔ Char.ofNat 0 ∈ s.toList := by
  rw [mem_utf8]
  constructor
  · rintro ⟨c, hc, hzero⟩
    by_cases hascii : c.toNat < 128
    · rw [utf8EncodeChar_of_ascii hascii, List.mem_singleton] at hzero
      have hnat : c.toNat = 0 := by
        have hmod := congrArg UInt8.toNat hzero
        rw [UInt8.toNat_ofNat'] at hmod
        have hbound : c.toNat % 256 = c.toNat := Nat.mod_eq_of_lt (by omega)
        rw [hbound] at hmod
        exact hmod.symm
      rw [← hnat, Char.ofNat_toNat]
      exact hc
    · have hbeyond := utf8EncodeChar_of_not_ascii (not_lt.mp hascii) 0 hzero
      exact absurd hbeyond (by decide)
  · intro hc
    exact ⟨_, hc, by decide⟩

section Terminated

variable {α : Type} {stop : α}

/-- The parts one after the other, each with a stop behind it. -/
def terminated (stop : α) (parts : List (List α)) : List α :=
  parts.flatMap fun part => part ++ [stop]

@[simp] theorem terminated_nil : terminated stop [] = [] := rfl

@[simp] theorem terminated_cons (part : List α) (parts : List (List α)) :
    terminated stop (part :: parts) = part ++ stop :: terminated stop parts := by
  simp [terminated]

/-- No part contains the stop. -/
def StopFree (stop : α) (parts : List (List α)) : Prop := ∀ part ∈ parts, stop ∉ part

/-- The first stop ends the first part. -/
theorem append_stop_inj {p q rest rest' : List α} (hp : stop ∉ p) (hq : stop ∉ q)
    (h : p ++ stop :: rest = q ++ stop :: rest') : p = q ∧ rest = rest' := by
  induction p generalizing q with
  | nil =>
      cases q with
      | nil => exact ⟨rfl, (List.cons.inj h).2⟩
      | cons b q =>
          have hhead := (List.cons.inj h).1
          exact absurd (List.mem_cons.mpr (.inl hhead)) hq
  | cons a p ih =>
      cases q with
      | nil =>
          have hhead := (List.cons.inj h).1
          exact absurd (List.mem_cons.mpr (.inl hhead.symm)) hp
      | cons b q =>
          obtain ⟨hhead, htail⟩ := List.cons.inj h
          have hp' : stop ∉ p := fun hmem => hp (List.mem_cons_of_mem a hmem)
          have hq' : stop ∉ q := fun hmem => hq (List.mem_cons_of_mem b hmem)
          obtain ⟨hpq, hrest⟩ := ih hp' hq' htail
          exact ⟨by rw [hhead, hpq], hrest⟩

/-- Parts without a stop are recovered one by one. -/
theorem terminated_injOn : Set.InjOn (terminated stop) {parts | StopFree stop parts} := by
  intro ps hps qs hqs h
  induction ps generalizing qs with
  | nil =>
      cases qs with
      | nil => rfl
      | cons q qs =>
          rw [terminated_nil, terminated_cons] at h
          simp at h
  | cons p ps ih =>
      cases qs with
      | nil =>
          rw [terminated_nil, terminated_cons] at h
          simp at h
      | cons q qs =>
          obtain ⟨hp, hps⟩ := List.forall_mem_cons.mp hps
          obtain ⟨hq, hqs⟩ := List.forall_mem_cons.mp hqs
          rw [terminated_cons, terminated_cons] at h
          obtain ⟨hfirst, hrest⟩ := append_stop_inj hp hq h
          rw [hfirst, ih hps hqs hrest]

end Terminated

end Py
