import Rag.Chunking.Base
import Rag.Lib.Bytes

/-!
`rag.utils.hashing`: the stable hash over parts that ids and cache keys are made of.

A hash object is the byte string it has been updated with; `sha256` stands for the digest of
a byte string. A NUL byte is fed behind every part, so parts without a NUL are recovered from
what is fed, however many there are.
-/

namespace Rag

open Py

namespace Hashing

/-- A part is a text, which is encoded, or bytes. -/
inductive Part where
  | text (s : String)
  | bytes (b : List UInt8)

def Part.encoded : Part → List UInt8
  | .text s => utf8 s
  | .bytes b => b

/-- `hashlib.sha256()` and what it has been updated with. -/
structure Digest where
  fed : List UInt8 := []

def Digest.update (digest : Digest) (data : List UInt8) : Digest := ⟨digest.fed ++ data⟩

/-- The loop over the parts. -/
def Digest.updateAll (digest : Digest) : List Part → Digest
  | [] => digest
  | part :: parts => ((digest.update part.encoded).update [0]).updateAll parts

/-- The byte string that `sha256_hex` feeds to the digest. -/
def preimage (parts : List Part) : List UInt8 := (Digest.updateAll {} parts).fed

theorem updateAll_fed (digest : Digest) (parts : List Part) :
    (digest.updateAll parts).fed = digest.fed ++ terminated 0 (parts.map Part.encoded) := by
  induction parts generalizing digest with
  | nil => simp [Digest.updateAll]
  | cons part parts ih =>
      rw [Digest.updateAll, ih, List.map_cons, terminated_cons]
      simp [Digest.update]

theorem preimage_eq (parts : List Part) :
    preimage parts = terminated 0 (parts.map Part.encoded) := by
  rw [preimage, updateAll_fed, List.nil_append]

section Ids

variable (sha256 : List UInt8 → List UInt8)

def Digest.hexdigest (digest : Digest) : String :=
  String.ofList ((sha256 digest.fed).flatMap fun byte =>
    [Json.hexDigit (byte.toNat / 16), Json.hexDigit (byte.toNat % 16)])

/-- Stable hash over the given parts, used for ids and cache keys. -/
def sha256Hex (parts : List Part) : String := (Digest.updateAll {} parts).hexdigest sha256

def shortId (parts : List Part) (length : ℤ := 24) : String :=
  slice length (sha256Hex sha256 parts)

/-- `short_id` of texts. -/
def textId (parts : List String) : String := shortId sha256 (parts.map .text)

/-- No two of the byte strings have the same digest, as far as an id shows it. -/
def CollisionFree (messages : Set (List UInt8)) : Prop :=
  Set.InjOn (fun message => slice 24 (Digest.hexdigest sha256 ⟨message⟩)) messages

end Ids

/-- A text without the NUL character. -/
def NulFree (s : String) : Prop := Char.ofNat 0 ∉ s.toList

theorem stopFree_encoded {parts : List String} (h : ∀ p ∈ parts, NulFree p) :
    StopFree 0 (parts.map utf8) := by
  intro bytes hbytes
  obtain ⟨p, hp, rfl⟩ := List.mem_map.mp hbytes
  rw [zero_mem_utf8_iff]
  exact h p hp

theorem preimage_text (parts : List String) :
    preimage (parts.map .text) = terminated 0 (parts.map utf8) := by
  rw [preimage_eq, List.map_map]
  rfl

theorem preimage_injOn :
    Set.InjOn (fun parts : List String => preimage (parts.map .text))
      {parts | ∀ p ∈ parts, NulFree p} := by
  intro ps hps qs hqs h
  dsimp only at h
  rw [preimage_text, preimage_text] at h
  have hparts := terminated_injOn (stopFree_encoded hps) (stopFree_encoded hqs) h
  exact List.map_injective_iff.mpr utf8_injective hparts

/-- Where no two messages collide, an id determines the parts it is made of. -/
theorem textId_injOn {sha256 : List UInt8 → List UInt8} {messages : Set (List UInt8)}
    (hfree : CollisionFree sha256 messages) :
    Set.InjOn (textId sha256)
      {parts | (∀ p ∈ parts, NulFree p) ∧ preimage (parts.map .text) ∈ messages} := by
  intro ps hps qs hqs h
  apply preimage_injOn hps.1 hqs.1
  exact hfree hps.2 hqs.2 h

/-- What the id of a chunk is made of. -/
structure ChunkFields where
  docId : String
  ordinal : ℤ
  chunkerVersion : String
  indexVersion : String

namespace ChunkFields

/-- `derive_chunk_id` over this digest. -/
def chunkId (sha256 : List UInt8 → List UInt8) (fields : ChunkFields) : String :=
  deriveChunkId (textId sha256) fields.docId fields.ordinal fields.chunkerVersion
    fields.indexVersion

def parts (fields : ChunkFields) : List String :=
  [fields.docId, toString fields.ordinal, fields.chunkerVersion, fields.indexVersion]

structure NulFree (fields : ChunkFields) : Prop where
  docId : Hashing.NulFree fields.docId
  chunkerVersion : Hashing.NulFree fields.chunkerVersion
  indexVersion : Hashing.NulFree fields.indexVersion

/-- The decimal digits of the ordinal contain no NUL. -/
theorem NulFree.parts {fields : ChunkFields} (h : fields.NulFree) :
    ∀ p ∈ fields.parts, Hashing.NulFree p := by
  have hordinal : Hashing.NulFree (toString fields.ordinal) := by
    intro hzero
    rcases Json.isDigit_of_mem_intText hzero with hdigit | hminus
    · exact absurd hdigit (by decide)
    · exact absurd hminus (by decide)
  simp only [ChunkFields.parts, List.forall_mem_cons]
  exact ⟨h.docId, hordinal, h.chunkerVersion, h.indexVersion, by simp⟩

theorem parts_injective : Function.Injective ChunkFields.parts := by
  intro f g h
  simp only [ChunkFields.parts, List.cons.injEq, and_true] at h
  obtain ⟨hdoc, hordinal, hchunker, hindex⟩ := h
  cases f
  cases g
  simp only [mk.injEq]
  exact ⟨hdoc, Json.intText_injective hordinal, hchunker, hindex⟩

end ChunkFields

/-- What is fed to the digest determines parts without a NUL, and a chunk id determines its
four fields wherever the digest has no collision. -/
theorem parts_separated :
    Set.InjOn (fun parts : List String => preimage (parts.map .text))
      {parts | ∀ p ∈ parts, NulFree p}
    ∧ ∀ (sha256 : List UInt8 → List UInt8) (messages : Set (List UInt8)),
      CollisionFree sha256 messages →
      Set.InjOn (ChunkFields.chunkId sha256)
        {fields | fields.NulFree ∧ preimage (fields.parts.map .text) ∈ messages} := by
  constructor
  · exact preimage_injOn
  · intro sha256 messages hfree f hf g hg h
    apply ChunkFields.parts_injective
    exact textId_injOn hfree ⟨hf.1.parts, hf.2⟩ ⟨hg.1.parts, hg.2⟩ h

section Examples

/-- The first chunks of a document. -/
def chunkFields (ordinal : ℤ) : ChunkFields := ⟨"d", ordinal, "1.0", "v1"⟩

def firstMessage : List UInt8 := [100, 0, 48, 0, 49, 46, 48, 0, 118, 49, 0]

def secondMessage : List UInt8 := [100, 0, 49, 0, 49, 46, 48, 0, 118, 49, 0]

/-- SHA-256 of these two messages. -/
def sampleSha256 (message : List UInt8) : List UInt8 :=
  if message = firstMessage then
    [160, 73, 239, 142, 143, 113, 24, 187, 194, 195, 162, 202, 167, 193, 192, 75, 222, 117, 51, 95,
      53, 247, 89, 122, 30, 107, 68, 51, 84, 126, 96, 140]
  else
    [29, 93, 76, 14, 183, 18, 58, 73, 127, 17, 30, 72, 182, 217, 148, 210, 135, 9, 116, 121, 13, 68,
      226, 102, 120, 152, 178, 95, 77, 19, 44, 29]

theorem chunkFields_nulFree (ordinal : ℤ) : (chunkFields ordinal).NulFree := by
  constructor <;> simp [chunkFields, NulFree]

theorem preimage_chunkFields :
    preimage ((chunkFields 0).parts.map .text) = firstMessage
    ∧ preimage ((chunkFields 1).parts.map .text) = secondMessage := by
  rw [preimage_text, preimage_text]
  simp only [ChunkFields.parts, List.map_cons, List.map_nil, utf8_eq]
  decide +kernel

theorem sampleSha256_collisionFree :
    CollisionFree sampleSha256 {firstMessage, secondMessage} := by
  have hfirst : slice 24 (Digest.hexdigest sampleSha256 ⟨firstMessage⟩)
      = "a049ef8e8f7118bbc2c3a2ca" := by decide +kernel
  have hsecond : slice 24 (Digest.hexdigest sampleSha256 ⟨secondMessage⟩)
      = "1d5d4c0eb7123a497f111e48" := by decide +kernel
  intro m hm n hn h
  dsimp only at h
  rcases hm with rfl | rfl <;> rcases hn with rfl | rfl
  · rfl
  · rw [hfirst, hsecond] at h
    exact absurd h (by decide)
  · rw [hfirst, hsecond] at h
    exact absurd h (by decide)
  · rfl

/-- The ids of the first two chunks of a document differ. -/
theorem parts_separated_ordinals :
    (chunkFields 0).chunkId sampleSha256 ≠ (chunkFields 1).chunkId sampleSha256 := by
  obtain ⟨hfirst, hsecond⟩ := preimage_chunkFields
  intro h
  have hfields := parts_separated.2 sampleSha256 {firstMessage, secondMessage}
    sampleSha256_collisionFree ⟨chunkFields_nulFree 0, .inl hfirst⟩
    ⟨chunkFields_nulFree 1, .inr hsecond⟩ h
  exact absurd (congrArg ChunkFields.ordinal hfields) (by decide)

end Examples

end Hashing

end Rag
