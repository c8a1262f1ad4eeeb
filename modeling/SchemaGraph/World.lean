import SchemaGraph.Document.Content
import SchemaGraph.Location.Path

/-!
# The outside world

What a resolution asks from outside: files and answers to requests.  The world does not change while
it is asked: the answer to a request depends on its URL and on the number of earlier requests to that
URL.

The world leaves out links: every path leads where its parts say, so the absolute form of a path only
settles the steps to parents.
-/

namespace SchemaGraph

/-- What a path may lead to. -/
inductive FileEntry where
  | file (octets : List UInt8)
  /-- A file that exists but cannot be read. -/
  | unreadable
  | directory

/-- The answer to a request. -/
structure Response where
  status : Int
  text : String
  /-- Where a redirect leads. -/
  location : Option String

/-- What becomes of a request. -/
inductive Reply where
  | answered (response : Response)
  /-- The request was lost; the kind of loss is given by name. -/
  | lost (kind : String)

/-- All that lies outside. -/
structure World where
  /-- The directory at which relative paths start. -/
  workingDirectory : Path
  /-- Files and empty directories under their absolute paths. -/
  files : List (Path × FileEntry)
  /-- The answer to the request to a URL after a number of earlier ones, and the seconds until it
  arrives. -/
  reply : String → Nat → Number × Reply
  /-- Whether requests follow redirects by themselves. -/
  followsRedirects : Bool
  /-- Whose turn it is whenever one of several tasks that are at work at once has to wait, by the numbers
  of the tasks.  Without turns there is no waiting, and every task runs to its end. -/
  turns : List Nat := []

namespace World

/-- A path as seen from the root. -/
def absolute (w : World) (p : Path) : Path := w.workingDirectory.append p

/-- Whether one list of parts leads into another. -/
def leadsInto (outer inner : List String) : Bool :=
  outer.length ≤ inner.length && inner.take outer.length == outer

/-- What stands at a list of parts; directories are known by what they hold. -/
def at? (w : World) (parts : List String) : Option FileEntry :=
  match w.files.find? fun file => file.1.parts == parts with
  | some file => some file.2
  | none =>
    if leadsInto parts w.workingDirectory.parts ||
        w.files.any fun file => leadsInto parts file.1.parts then some .directory
    else none

/-- Follow parts from a directory, which is given by its parts. -/
def follow (w : World) (directory : List String) : List String → Except Fault FileEntry
  | [] => .ok .directory
  | part :: rest =>
    if part == ".." then follow w directory.dropLast rest
    else
      let here := directory ++ [part]
      match w.at? here with
      | none => .error .noSuchFile
      | some .directory => follow w here rest
      | some entry => if rest.isEmpty then .ok entry else .error .notDirectory

/-- What a path leads to. -/
def find (w : World) (p : Path) : Except Fault FileEntry := w.follow [] (w.absolute p).parts

/-- Whether a path leads to a file. -/
def isFile (w : World) (p : Path) : Bool :=
  match w.find p with
  | .ok (.file _) | .ok .unreadable => true
  | _ => false

/-- Whether a path leads anywhere. -/
def pathExists (w : World) (p : Path) : Bool := (w.find p).isOk

/-- The text of a file. -/
def read (w : World) (p : Path) : Except Fault String := do
  match ← w.find p with
  | .file octets => Document.decode octets
  | .unreadable => throw .unreadableFile
  | .directory => throw .isDirectory

/-- The absolute form of a path without steps to a parent.  It starts with one slash, however many the
path starts with. -/
def resolve (w : World) (p : Path) : Path := { (w.absolute p).normalize with slashes := 1 }

end World

end SchemaGraph
