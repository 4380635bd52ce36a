import Rag.Ingestion.LocalFs
import Rag.Lib.Bytes
import Rag.Lib.Layout

/-!
Which listed files are fetched again.

`list_uris` quotes the path of a file and `fetch` takes the scheme off and nothing else, so
what it opens is the path with every part quoted. That is the path that was listed exactly
when no part has a character to quote.
-/

namespace Rag

open Py

/-- What RFC 3986 leaves unreserved. -/
def unreserved (c : Char) : Bool := c.isAlphanum || "_.-~".toList.contains c

/-- What `quote` makes of one byte. -/
def quoteByte (byte : UInt8) : List Char :=
  let c := Char.ofNat byte.toNat
  if byte.toNat < 128 && (c.isAlphanum || "_.-~/".toList.contains c) then [c]
  else ['%', upperHex (byte.toNat / 16), upperHex (byte.toNat % 16)]

def quoteChar (c : Char) : List Char := (String.utf8EncodeChar c).flatMap quoteByte

theorem toList_quotePath (text : String) :
    (quotePath text).toList = text.toList.flatMap quoteChar := by
  have hquote : quotePath text = String.ofList ((utf8 text).flatMap quoteByte) := rfl
  rw [hquote, String.toList_ofList, utf8_eq, List.flatMap_assoc]
  rfl

theorem quoteChar_slash : quoteChar '/' = ['/'] := by decide

theorem ascii_of_unreserved {c : Char} (h : unreserved c = true) : c.toNat < 128 := by
  rw [unreserved, Bool.or_eq_true] at h
  rcases h with halnum | hmark
  · delta Char.isAlphanum Char.isAlpha Char.isUpper Char.isLower Char.isDigit at halnum
    simp only [Bool.or_eq_true, Bool.and_eq_true, decide_eq_true_eq, ge_iff_le,
      UInt32.le_iff_toNat_le] at halnum
    have hval : c.val.toNat = c.toNat := rfl
    have hnine : '9'.val.toNat = 57 := rfl
    have hupper : 'Z'.val.toNat = 90 := rfl
    have hlower : 'z'.val.toNat = 122 := rfl
    omega
  · have hmarks : ("_.-~".toList.all fun d => d.toNat < 128) = true := by decide
    have hlt := List.all_eq_true.mp hmarks c (List.contains_iff_mem.mp hmark)
    exact of_decide_eq_true hlt

theorem upperHex_ne_slash : ∀ n < 16, upperHex n ≠ '/' := by decide

/-- A byte that is not left as it is becomes three characters. -/
theorem slash_not_mem_escape (byte : UInt8) :
    '/' ∉ ['%', upperHex (byte.toNat / 16), upperHex (byte.toNat % 16)] := by
  have hbound : byte.toNat < 256 := byte.toNat_lt
  have hhigh := upperHex_ne_slash (byte.toNat / 16) (by omega)
  have hlow := upperHex_ne_slash (byte.toNat % 16) (by omega)
  simp only [List.mem_cons, List.not_mem_nil, or_false, not_or]
  exact ⟨by decide, hhigh.symm, hlow.symm⟩

theorem quoteByte_of_not_ascii {byte : UInt8} (h : 128 ≤ byte.toNat) :
    quoteByte byte = ['%', upperHex (byte.toNat / 16), upperHex (byte.toNat % 16)] := by
  have hbyte : decide (byte.toNat < 128) = false := decide_eq_false (not_lt.mpr h)
  rw [quoteByte, hbyte, Bool.false_and]
  rfl

theorem quoteChar_of_ascii {c : Char} (h : c.toNat < 128) (hslash : c ≠ '/') :
    quoteChar c = if unreserved c then [c]
      else ['%', upperHex (c.toNat / 16), upperHex (c.toNat % 16)] := by
  have hbyte : (UInt8.ofNat c.toNat).toNat = c.toNat := by
    rw [UInt8.toNat_ofNat']
    omega
  have hmarks : "_.-~/".toList.contains c = "_.-~".toList.contains c := by
    simp [hslash]
  rw [quoteChar, utf8EncodeChar_of_ascii h, List.flatMap_cons, List.flatMap_nil, List.append_nil,
    quoteByte]
  simp only [hbyte, Char.ofNat_toNat, decide_eq_true h, Bool.true_and, hmarks]
  rfl

/-- An unreserved character stays as it is; any other but the slash becomes at least three. -/
theorem quoteChar_cases {c : Char} (hslash : c ≠ '/') :
    unreserved c = true ∧ quoteChar c = [c]
    ∨ unreserved c = false ∧ 3 ≤ (quoteChar c).length ∧ '/' ∉ quoteChar c := by
  by_cases hascii : c.toNat < 128
  · rw [quoteChar_of_ascii hascii hslash]
    cases hplain : unreserved c with
    | true => exact .inl ⟨rfl, rfl⟩
    | false =>
        right
        have hescape := slash_not_mem_escape (UInt8.ofNat c.toNat)
        have hbyte : (UInt8.ofNat c.toNat).toNat = c.toNat := by
          rw [UInt8.toNat_ofNat']
          omega
        rw [hbyte] at hescape
        exact ⟨rfl, Nat.le_refl 3, hescape⟩
  · right
    have hbytes := utf8EncodeChar_of_not_ascii (not_lt.mp hascii)
    refine ⟨?_, ?_, ?_⟩
    · cases hplain : unreserved c with
      | false => rfl
      | true => exact absurd (ascii_of_unreserved hplain) hascii
    · obtain ⟨byte, rest, hencoded⟩ :=
        List.exists_cons_of_ne_nil (String.utf8EncodeChar_ne_nil (c := c))
      rw [hencoded] at hbytes
      have hbyte := hbytes byte List.mem_cons_self
      rw [quoteChar, hencoded, List.flatMap_cons, quoteByte_of_not_ascii hbyte, List.length_append]
      exact Nat.le_add_right 3 _
    · intro hmem
      obtain ⟨byte, hbyte, hslash'⟩ := List.mem_flatMap.mp hmem
      rw [quoteByte_of_not_ascii (hbytes byte hbyte)] at hslash'
      exact slash_not_mem_escape byte hslash'

/-- A name that can stand in a directory. -/
structure PathPart (part : String) : Prop where
  ne_empty : part ≠ ""
  ne_dot : part ≠ "."
  slash : '/' ∉ part.toList

/-- A part without a character to quote. -/
def Unreserved (part : String) : Prop := ∀ c ∈ part.toList, unreserved c = true

theorem quotePath_of_unreserved {part : String} (h : Unreserved part) : quotePath part = part := by
  apply String.toList_inj.mp
  rw [toList_quotePath]
  have hchars : ∀ c ∈ part.toList, quoteChar c = [c] := by
    intro c hc
    have hslash : c ≠ '/' := by
      intro heq
      have hplain := h c hc
      rw [heq] at hplain
      exact absurd hplain (by decide)
    rcases quoteChar_cases hslash with ⟨-, hquote⟩ | ⟨hescaped, -⟩
    · exact hquote
    · rw [h c hc] at hescaped
      cases hescaped
  rw [List.flatMap_congr hchars]
  simp

/-- Quoting makes a text longer, by two characters at least, unless it has nothing to quote. -/
theorem length_flatMap_quoteChar {cs : List Char} (h : '/' ∉ cs) :
    cs.length ≤ (cs.flatMap quoteChar).length
      ∧ ((cs.flatMap quoteChar).length ≤ cs.length + 1 → ∀ c ∈ cs, unreserved c = true) := by
  induction cs with
  | nil => simp
  | cons c rest ih =>
      rw [List.mem_cons, not_or] at h
      obtain ⟨hle, hplain⟩ := ih h.2
      rw [List.flatMap_cons, List.length_append, List.length_cons, List.forall_mem_cons]
      rcases quoteChar_cases (Ne.symm h.1) with ⟨hc, hquote⟩ | ⟨-, hlong, -⟩
      · rw [hquote, List.length_singleton]
        constructor
        · omega
        · intro hshort
          exact ⟨hc, hplain (by omega)⟩
      · constructor
        · omega
        · intro hshort
          omega

theorem length_quotePath {part : String} (h : PathPart part) :
    part.length ≤ (quotePath part).length
      ∧ ((quotePath part).length ≤ part.length + 1 → Unreserved part) := by
  rw [← String.length_toList, ← String.length_toList, toList_quotePath]
  exact length_flatMap_quoteChar h.slash

theorem quotePath_eq_self_iff {part : String} (h : PathPart part) :
    quotePath part = part ↔ Unreserved part := by
  constructor
  · intro hsame
    apply (length_quotePath h).2
    rw [hsame]
    exact Nat.le_succ _
  · exact quotePath_of_unreserved

/-- A quoted part is a part. -/
theorem PathPart.quoted {part : String} (h : PathPart part) : PathPart (quotePath part) := by
  obtain ⟨hle, hplain⟩ := length_quotePath h
  have hlength : 0 < part.length := by
    rw [← String.length_toList]
    apply List.length_pos_of_ne_nil
    simpa using h.ne_empty
  constructor
  · intro hempty
    rw [hempty, String.length_empty] at hle
    omega
  · intro hdot
    have hone : (quotePath part).length = 1 := by
      rw [hdot]
      rfl
    have hsame := quotePath_of_unreserved (hplain (by omega))
    rw [hsame] at hdot
    exact h.ne_dot hdot
  · intro hmem
    rw [toList_quotePath, List.mem_flatMap] at hmem
    obtain ⟨c, hc, hslash⟩ := hmem
    have hne : c ≠ '/' := fun heq => h.slash (heq ▸ hc)
    rcases quoteChar_cases hne with ⟨-, hquote⟩ | ⟨-, -, hnone⟩
    · rw [hquote, List.mem_singleton] at hslash
      exact hne hslash.symm
    · exact hnone hslash

theorem intercalate_eq_behind (sep first : List Char) (rest : List (List Char)) :
    sep.intercalate (first :: rest) = first ++ behind sep rest := by
  induction rest generalizing first with
  | nil => simp
  | cons part rest ih =>
      rw [List.intercalate_cons_cons, ih, behind_cons, List.append_assoc, List.append_assoc]

theorem toList_pathString (part : String) (rest : List String) :
    (pathString (part :: rest)).toList
      = '/' :: (part.toList ++ behind ['/'] (rest.map String.toList)) := by
  rw [pathString, String.toList_append, join, String.toList_intercalate, List.map_cons,
    String.toList_ofList, intercalate_eq_behind]
  rfl

/-- Reading a path back from its text. -/
theorem parsePath_pathString {path : List String} (h : ∀ part ∈ path, PathPart part) :
    parsePath (pathString path) = path := by
  cases path with
  | nil => decide
  | cons part rest =>
      have hclean : ∀ p ∈ part.toList :: rest.map String.toList, '/' ∉ p := by
        rw [← List.map_cons]
        intro p hp
        obtain ⟨s, hs, rfl⟩ := List.mem_map.mp hp
        exact (h s hs).slash
      have hsplit : split (pathString (part :: rest)) "/" = "" :: part :: rest := by
        rw [split, toList_pathString]
        change (cutAt ['/'] 0 (['/'] ++ (part.toList ++ behind ['/'] (rest.map String.toList)))).map
          String.ofList = _
        rw [cutAt_append (by simp), cutAt_behind hclean]
        simp [Function.comp_def]
      have hkept : (part :: rest).filter (fun p => p ≠ "" && p ≠ ".") = part :: rest := by
        apply List.filter_eq_self.mpr
        intro p hp
        simp [(h p hp).ne_empty, (h p hp).ne_dot]
      rw [parsePath, hsplit, List.filter_cons_of_neg (by simp), hkept]

/-- The slashes stay, so a path is quoted part by part. -/
theorem quotePath_pathString (path : List String) :
    quotePath (pathString path) = pathString (path.map quotePath) := by
  apply String.toList_inj.mp
  cases path with
  | nil =>
      have hroot : (pathString []).toList = ['/'] := by decide
      rw [toList_quotePath, List.map_nil, hroot]
      exact quoteChar_slash
  | cons part rest =>
      have hbehind : (behind ['/'] (rest.map String.toList)).flatMap quoteChar
          = behind ['/'] ((rest.map quotePath).map String.toList) := by
        simp [behind, List.flatMap_assoc, List.flatMap_map, quoteChar_slash, toList_quotePath]
      rw [toList_quotePath, List.map_cons, toList_pathString, toList_pathString, List.flatMap_cons,
        List.flatMap_append, quoteChar_slash, hbehind, toList_quotePath]
      rfl

section Connector

variable (connector : LocalFSConnector) (files : FileTree)

/-- Every path of the tree is made of names. -/
def WellFormedTree : Prop := ∀ path ∈ files.keys, ∀ part ∈ path, PathPart part

/-- The files that `list_uris` yields. -/
def listedPaths : List (List String) :=
  (connector.below files).filter fun path => LocalFSConnector.isFile files path
    && pathName path ≠ ".gitkeep" && pathName path ≠ "README.md"

example : connector.listUris files = (listedPaths connector files).map asUri := rfl

variable [Runtime]

/-- The document of the file at a path. -/
def documentAt (path : List String) (acl : Option AclTags) (checksum : String)
    (text : Option String) : Document where
  docId := stem (pathName path)
  sourceUri := asUri path
  mimeType := guessMime (pathName path)
  checksum := checksum
  text := text
  acl := acl.getD defaultAcl
  metadata := [("path", .str (pathString path))]

/-- Fetching the URI of a path reads the file at that path. -/
def ReadsFile (path : List String) (acl : Option AclTags) : Prop :=
  ∃ checksum text, files.get? path = some (.file checksum text)
    ∧ LocalFSConnector.fetch files (asUri path) acl = .ok (documentAt path acl checksum text)

variable {connector files} {path : List String} {acl : Option AclTags}

omit [Runtime] in
theorem listed_parts (hfiles : WellFormedTree files) (hpath : path ∈ listedPaths connector files) :
    ∀ part ∈ path, PathPart part := by
  have hbelow := (List.mem_filter.mp hpath).1
  rw [LocalFSConnector.below, List.mem_insertionSort] at hbelow
  exact hfiles path (List.mem_filter.mp hbelow).1

omit [Runtime] in
theorem listed_file (hpath : path ∈ listedPaths connector files) :
    ∃ checksum text, files.get? path = some (.file checksum text) := by
  have hfile := (List.mem_filter.mp hpath).2
  rw [Bool.and_eq_true, Bool.and_eq_true, LocalFSConnector.isFile] at hfile
  cases hget : files.get? path with
  | none =>
      rw [hget] at hfile
      exact absurd hfile.1.1 (by decide)
  | some entry =>
      cases entry with
      | directory =>
          rw [hget] at hfile
          exact absurd hfile.1.1 (by decide)
      | file checksum text => exact ⟨checksum, text, rfl⟩

omit [Runtime] in
theorem quoted_parts (hparts : ∀ part ∈ path, PathPart part) :
    ∀ part ∈ path.map quotePath, PathPart part := by
  intro part hpart
  obtain ⟨name, hname, rfl⟩ := List.mem_map.mp hpart
  exact (hparts name hname).quoted

omit [Runtime] in
/-- What `fetch` opens is the path as it is quoted. -/
theorem parsePath_asUri (hparts : ∀ part ∈ path, PathPart part) :
    parsePath (removePrefix (asUri path) "file://") = path.map quotePath := by
  rw [asUri, removePrefix_append, quotePath_pathString,
    parsePath_pathString (quoted_parts hparts)]

omit [Runtime] in
theorem quoted_path_iff (hparts : ∀ part ∈ path, PathPart part) :
    path.map quotePath = path ↔ ∀ part ∈ path, Unreserved part := by
  have hid : path.map quotePath = path ↔ path.map quotePath = path.map id := by rw [List.map_id]
  rw [hid, List.map_inj_left]
  exact forall₂_congr fun part hpart => quotePath_eq_self_iff (hparts part hpart)

theorem fetch_asUri (hparts : ∀ part ∈ path, PathPart part) {document : Document}
    (h : LocalFSConnector.fetch files (asUri path) acl = .ok document) :
    document.metadata = [("path", .str (pathString (path.map quotePath)))] := by
  rw [LocalFSConnector.fetch, parsePath_asUri hparts] at h
  cases hget : files.get? (path.map quotePath) with
  | none =>
      rw [hget] at h
      cases h
  | some entry =>
      rw [hget] at h
      cases entry with
      | directory => cases h
      | file checksum text =>
          cases h
          rfl

theorem readsFile_of_quoted (hpath : path ∈ listedPaths connector files)
    (hparts : ∀ part ∈ path, PathPart part) (h : path.map quotePath = path) :
    ReadsFile files path acl := by
  obtain ⟨checksum, text, hget⟩ := listed_file hpath
  refine ⟨checksum, text, hget, ?_⟩
  rw [LocalFSConnector.fetch, parsePath_asUri hparts, h, hget]
  rfl

theorem quoted_of_readsFile (hparts : ∀ part ∈ path, PathPart part)
    (h : ReadsFile files path acl) : path.map quotePath = path := by
  obtain ⟨checksum, text, -, hfetch⟩ := h
  have hmetadata := fetch_asUri hparts hfetch
  have htext : pathString path = pathString (path.map quotePath) := by
    simpa [documentAt] using hmetadata
  have hsame := congrArg parsePath htext
  rw [parsePath_pathString hparts, parsePath_pathString (quoted_parts hparts)] at hsame
  exact hsame.symm

/-- A listed file is fetched exactly when its path has no character to quote. -/
theorem fetch_listed_iff (hfiles : WellFormedTree files)
    (hpath : path ∈ listedPaths connector files) (acl : Option AclTags) :
    ReadsFile files path acl ↔ ∀ part ∈ path, Unreserved part := by
  have hparts := listed_parts hfiles hpath
  rw [← quoted_path_iff hparts]
  constructor
  · exact quoted_of_readsFile hparts
  · exact readsFile_of_quoted hpath hparts

end Connector

section Examples

/-- One file below `/d`. -/
def oneFileTree (name : String) : FileTree :=
  (Dict.empty.set ["d"] .directory).set ["d", name] (.file "c" (some "text"))

theorem oneFileTree_wellFormed {name : String} (h : PathPart name) :
    WellFormedTree (oneFileTree name) := by
  have hd : PathPart "d" := ⟨by decide, by decide, by decide⟩
  intro path hpath
  have hkeys : path = ["d", name] ∨ path = ["d"] := by
    rw [oneFileTree, Dict.mem_keys_set, Dict.mem_keys_set] at hpath
    rcases hpath with hfile | hdirectory | hnone
    · exact .inl hfile
    · exact .inr hdirectory
    · cases hnone
  rcases hkeys with rfl | rfl
  · simpa using ⟨hd, h⟩
  · simpa using hd

/-- A name of unreserved characters is fetched. -/
theorem fetch_listed_iff_plain :
    let _ := Runtime.ascii
    ReadsFile (oneFileTree "a.txt") ["d", "a.txt"] none := by
  intro _
  have hname : PathPart "a.txt" := ⟨by decide, by decide, by decide⟩
  have hlisted : ["d", "a.txt"] ∈ listedPaths ⟨["d"]⟩ (oneFileTree "a.txt") := by decide +kernel
  apply (fetch_listed_iff (oneFileTree_wellFormed hname) hlisted none).mpr
  intro part hpart
  have hplain : (["d", "a.txt"].all fun part => part.toList.all unreserved) = true := by decide
  exact List.all_eq_true.mp (List.all_eq_true.mp hplain part hpart)

/-- A name with a space is listed and not found again. -/
theorem space_is_not_fetched :
    ¬ ∀ (_ : Runtime) (connector : LocalFSConnector) (files : FileTree) (path : List String)
      (acl : Option AclTags), WellFormedTree files → path ∈ listedPaths connector files →
      ReadsFile files path acl := by
  intro h
  let _ := Runtime.ascii
  have hname : PathPart "a b" := ⟨by decide, by decide, by decide⟩
  have hfiles := oneFileTree_wellFormed hname
  have hlisted : ["d", "a b"] ∈ listedPaths ⟨["d"]⟩ (oneFileTree "a b") := by decide +kernel
  have hparts := listed_parts hfiles hlisted
  have hreads := h Runtime.ascii ⟨["d"]⟩ (oneFileTree "a b") ["d", "a b"] none hfiles hlisted
  have hquoted := quoted_of_readsFile hparts hreads
  have hspace := (quoted_path_iff hparts).mp hquoted "a b" (by simp) ' ' (by decide)
  exact absurd hspace (by decide)

end Examples

end Rag
