import Rag.Errors
import Rag.Lib.Dict
import Rag.Schemas

/-!
`rag.ingestion.local_fs`: ingest documents from a local directory.

A path is its list of parts below `/`, and the file system is a table of paths. A file is
what the connector reads of it: the checksum of its bytes and their text, where they are
UTF-8. The name of a file is quoted in its URI and stays quoted when it is fetched.
-/

namespace Rag

open Py

/-- What stands at a path. -/
inductive Entry where
  | directory
  | file (checksum : String) (text : Option String)

abbrev FileTree : Type := Dict (List String) Entry

def defaultAcl : AclTags := { tenant := "default", allowGroups := {"public"} }

/-- `str(path)` -/
def pathString (path : List String) : String := "/" ++ join "/" path

/-- `Path(text)`: empty parts and dots are dropped. -/
def parsePath (text : String) : List String :=
  (split text "/").filter fun part => part ≠ "" && part ≠ "."

def upperHex (n : Nat) : Char := (Nat.digitChar n).toUpper

/-- `urllib.parse.quote` on the bytes of a path. -/
def quotePath (text : String) : String :=
  String.ofList (text.toUTF8.toList.flatMap fun byte =>
    let c := Char.ofNat byte.toNat
    if byte.toNat < 128 && (c.isAlphanum || "_.-~/".toList.contains c) then [c]
    else ['%', upperHex (byte.toNat / 16), upperHex (byte.toNat % 16)])

/-- `path.as_uri()` -/
def asUri (path : List String) : String := "file://" ++ quotePath (pathString path)

/-- Where a name is cut into `stem` and `suffix`: at its last dot, which is neither its first
nor its last character. -/
def suffixIndex (name : String) : Option Nat :=
  match cutLast ['.'] name.toList with
  | none => none
  | some (before, after) => if before = [] ∨ after = [] then none else some before.length

/-- `path.stem` -/
def stem (name : String) : String :=
  match suffixIndex name with
  | none => name
  | some i => String.ofList (name.toList.take i)

/-- `path.suffix` -/
def suffix (name : String) : String :=
  match suffixIndex name with
  | none => ""
  | some i => String.ofList (name.toList.drop i)

/-- `path.name` -/
def pathName (path : List String) : String := path.getLastD ""

section Connector

variable [Runtime]

def guessMime (name : String) : String :=
  let ending := Runtime.lower (suffix name)
  if ending = ".txt" then "text/plain"
  else if ending = ".md" then "text/markdown"
  else if ending = ".markdown" then "text/markdown"
  else if ending = ".pdf" then "application/pdf"
  else if ending = ".html" then "text/html"
  else if ending = ".htm" then "text/html"
  else if ending = ".json" then "application/json"
  else "application/octet-stream"

/-- Ingest documents from a local filesystem directory; the root has been resolved. -/
structure LocalFSConnector where
  root : List String

namespace LocalFSConnector

variable (connector : LocalFSConnector) (files : FileTree)

omit [Runtime] in
/-- `sorted(self.root.glob("**/*"))` -/
def below : List (List String) :=
  (files.keys.filter fun path => connector.root.isPrefixOf path && path ≠ connector.root)
    |>.insertionSort (· ≤ ·)

omit [Runtime] in
def isFile (path : List String) : Bool :=
  match files.get? path with
  | some (.file _ _) => true
  | _ => false

omit [Runtime] in
def listUris : List String :=
  ((connector.below files).filter fun path => isFile files path && pathName path ≠ ".gitkeep"
    && pathName path ≠ "README.md").map asUri

/-- `path.read_bytes()` fails on what is not a file. A path that is not absolute starts at `/`
here; no URI of `list_uris` has one. -/
def fetch (uri : String) (acl : Option AclTags) : Except Exn Document :=
  let path := parsePath (removePrefix uri "file://")
  match files.get? path with
  | none => .error ⟨.other, "FileNotFoundError", "[Errno 2] No such file or directory: "
      ++ Runtime.repr (.str (pathString path))⟩
  | some .directory => .error ⟨.other, "IsADirectoryError", "[Errno 21] Is a directory: "
      ++ Runtime.repr (.str (pathString path))⟩
  | some (.file checksum text) => .ok {
      docId := stem (pathName path)
      sourceUri := uri
      mimeType := guessMime (pathName path)
      checksum := checksum
      text := text
      acl := acl.getD defaultAcl
      metadata := [("path", .str (pathString path))] }

end LocalFSConnector

end Connector

end Rag
