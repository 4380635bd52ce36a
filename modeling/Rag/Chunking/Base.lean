import Rag.Errors
import Rag.Schemas

/-!
Chunk ids, and what every chunker does with the pieces it cuts.

`shortId` stands for the truncated digest of a list of parts. A document's chunks are
numbered from zero, whichever strategy cut them, and the id of a chunk is made of its
document, its number, the version of the chunker and the index version.
-/

namespace Rag

open Py

section Chunks

variable (shortId : List String → String)

/-- Deterministic chunk id so reindexing is idempotent and diffable. -/
def deriveChunkId (docId : String) (ordinal : ℤ) (chunkerVersion indexVersion : String) : String :=
  shortId [docId, toString ordinal, chunkerVersion, indexVersion]

/-- All four chunkers carry this version. -/
def chunkerVersion : String := "1.0"

/-- A piece a chunker has cut, and where it stands in the text. -/
structure Piece where
  text : String
  span : ℤ × ℤ

/-- The chunk a chunker makes of the piece with the number `ordinal`. -/
def Document.chunkOf (document : Document) (indexVersion chunker : String) (ordinal : Nat)
    (piece : Piece) : Chunk where
  chunkId := deriveChunkId shortId document.docId ordinal chunkerVersion indexVersion
  docId := document.docId
  ordinal := ordinal
  text := piece.text
  span := piece.span
  acl := document.acl
  indexVersion := indexVersion
  metadata := [("chunker", .str chunker), ("chunker_version", .str chunkerVersion)]

/-- Number the pieces from zero. -/
def Document.chunksOf (document : Document) (indexVersion chunker : String)
    (pieces : List Piece) : List Chunk :=
  pieces.mapIdx fun ordinal piece => document.chunkOf shortId indexVersion chunker ordinal piece

/-- What identifies a chunk: its document, its number and the two versions. -/
structure Identified (chunk : Chunk) (docId indexVersion : String) (ordinal : Nat) : Prop where
  docId_eq : chunk.docId = docId
  ordinal_eq : chunk.ordinal = ordinal
  indexVersion_eq : chunk.indexVersion = indexVersion
  chunkId_eq : chunk.chunkId = deriveChunkId shortId docId ordinal chunkerVersion indexVersion

/-- The chunks of one document, numbered from zero. -/
def Numbered (docId indexVersion : String) (chunks : List Chunk) : Prop :=
  ∀ i chunk, chunks[i]? = some chunk → Identified shortId chunk docId indexVersion i

variable {shortId}

/-- Under a digest without collisions an id determines what it is made of. -/
theorem deriveChunkId_inj (hinj : Function.Injective shortId) {docId docId' version version' : String}
    {i j : Nat} : deriveChunkId shortId docId i chunkerVersion version
        = deriveChunkId shortId docId' j chunkerVersion version'
      ↔ docId = docId' ∧ i = j ∧ version = version' := by
  have hordinal : toString (i : ℤ) = toString (j : ℤ) ↔ i = j :=
    Json.intText_injective.eq_iff.trans Int.ofNat_inj
  rw [deriveChunkId, deriveChunkId, hinj.eq_iff]
  simp only [List.cons.injEq, hordinal, and_true, true_and]

theorem Identified.chunkId_inj (hinj : Function.Injective shortId) {chunk chunk' : Chunk}
    {docId docId' version version' : String} {i j : Nat}
    (h : Identified shortId chunk docId version i) (h' : Identified shortId chunk' docId' version' j) :
    chunk.chunkId = chunk'.chunkId ↔ docId = docId' ∧ i = j ∧ version = version' := by
  rw [h.chunkId_eq, h'.chunkId_eq, deriveChunkId_inj hinj]

theorem Numbered.mem {docId indexVersion : String} {chunks : List Chunk}
    (h : Numbered shortId docId indexVersion chunks) {chunk : Chunk} (hchunk : chunk ∈ chunks) :
    ∃ i, i < chunks.length ∧ Identified shortId chunk docId indexVersion i := by
  obtain ⟨i, hi⟩ := List.mem_iff_getElem?.mp hchunk
  exact ⟨i, (List.getElem?_eq_some_iff.mp hi).1, h i chunk hi⟩

theorem Numbered.nodup (hinj : Function.Injective shortId) {docId indexVersion : String}
    {chunks : List Chunk} (h : Numbered shortId docId indexVersion chunks) :
    (chunks.map Chunk.chunkId).Nodup := by
  rw [List.nodup_iff_injective_get]
  intro i j hij
  rw [List.get_eq_getElem, List.get_eq_getElem, List.getElem_map, List.getElem_map] at hij
  have hi := h i _ (List.getElem?_eq_getElem (by simpa using i.isLt))
  have hj := h j _ (List.getElem?_eq_getElem (by simpa using j.isLt))
  exact Fin.ext ((hi.chunkId_inj hinj hj).mp hij).2.1

theorem numbered_nil (docId indexVersion : String) : Numbered shortId docId indexVersion [] := by
  intro i chunk h
  simp at h

theorem numbered_chunksOf (document : Document) (indexVersion chunker : String)
    (pieces : List Piece) : Numbered shortId document.docId indexVersion
      (document.chunksOf shortId indexVersion chunker pieces) := by
  intro i chunk h
  rw [Document.chunksOf, List.getElem?_mapIdx] at h
  obtain ⟨piece, -, rfl⟩ := Option.map_eq_some_iff.mp h
  exact ⟨rfl, rfl, rfl, rfl⟩

/-- Stamping or relabelling chunks leaves what identifies them. -/
theorem Numbered.map {docId indexVersion : String} {chunks : List Chunk}
    (h : Numbered shortId docId indexVersion chunks) {f : Chunk → Chunk}
    (hf : ∀ chunk, (f chunk).docId = chunk.docId ∧ (f chunk).ordinal = chunk.ordinal
      ∧ (f chunk).indexVersion = chunk.indexVersion ∧ (f chunk).chunkId = chunk.chunkId) :
    Numbered shortId docId indexVersion (chunks.map f) := by
  intro i chunk hget
  rw [List.getElem?_map] at hget
  obtain ⟨old, hold, rfl⟩ := Option.map_eq_some_iff.mp hget
  obtain ⟨hdoc, hordinal, hversion, hid⟩ := hf old
  have hidentified := h i old hold
  exact ⟨hdoc.trans hidentified.docId_eq, hordinal.trans hidentified.ordinal_eq,
    hversion.trans hidentified.indexVersion_eq, hid.trans hidentified.chunkId_eq⟩

end Chunks

/-- The parts themselves: a mark before every character and one after every part. -/
def spelledOut (parts : List String) : String :=
  String.ofList (parts.flatMap fun p => p.toList.flatMap (fun c => ['.', c]) ++ [','])

theorem spelledOut_head {p q rest rest' : List Char}
    (h : p.flatMap (fun c => ['.', c]) ++ ',' :: rest
      = q.flatMap (fun c => ['.', c]) ++ ',' :: rest') : p = q ∧ rest = rest' := by
  induction p generalizing q with
  | nil =>
      cases q with
      | nil => exact ⟨rfl, (List.cons.inj h).2⟩
      | cons d q => cases h
  | cons c p ih =>
      cases q with
      | nil => cases h
      | cons d q =>
          have htail := List.cons.inj (List.cons.inj h).2
          obtain ⟨rfl, hrest⟩ := ih htail.2
          exact ⟨by rw [htail.1], hrest⟩

theorem spelledOut_injective : Function.Injective spelledOut := by
  intro ps qs h
  have hchars := String.ofList_injective h
  clear h
  induction ps generalizing qs with
  | nil =>
      cases qs with
      | nil => rfl
      | cons q qs => simp at hchars
  | cons p ps ih =>
      cases qs with
      | nil => simp at hchars
      | cons q qs =>
          rw [List.flatMap_cons, List.flatMap_cons, List.append_assoc, List.append_assoc] at hchars
          obtain ⟨hhead, hrest⟩ := spelledOut_head hchars
          rw [String.toList_inj.mp hhead, ih hrest]

end Rag
