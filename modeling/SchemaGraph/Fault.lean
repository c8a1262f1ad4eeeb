/-!
# Faults

Ways in which an operation on loosely typed data, on text or on the outside world can go wrong
without being a failure of schema resolution itself.  A fault carries no wording: whoever reports
it only says which kind it was.
-/

namespace SchemaGraph

/-- What went wrong in an operation below the level of schema resolution. -/
inductive Fault where
  /-- A value of the wrong kind was compared, iterated, added, indexed or used as a key. -/
  | typeMismatch
  /-- A value lacks the member that its use requires. -/
  | missingMember
  /-- A value of the right kind is outside the accepted range. -/
  | invalidValue
  /-- A key is absent from a mapping. -/
  | missingKey
  /-- A position lies outside a sequence. -/
  | missingIndex
  /-- A quotient has divisor zero. -/
  | divisionByZero
  /-- An integer is too large for a double. -/
  | overflow
  /-- A queue ran dry while something still had to be taken from it. -/
  | emptyQueue
  /-- Bytes are not the encoding of any text. -/
  | undecodableText
  /-- Text has no encoding in the requested character set. -/
  | unencodableText
  /-- A file exists but cannot be read. -/
  | unreadableFile
  /-- A file or one of its parent directories does not exist. -/
  | noSuchFile
  /-- A directory stands where a file is required. -/
  | isDirectory
  /-- A path leads through something that is not a directory. -/
  | notDirectory
  /-- Text is not JSON. -/
  | malformedJson
  /-- Text is not YAML, or uses a part of it that is refused. -/
  | malformedYaml
  /-- A pointer segment cannot be followed. -/
  | deadSegment (segment : String)
  /-- A request was answered with a status that is not a success. -/
  | httpStatus (status : Int)
  /-- More redirects were answered than are allowed. -/
  | tooManyRedirects
  /-- A request cannot be sent because its URL is not well formed. -/
  | invalidUrl
  /-- A request was lost on the way; the kind of loss is reported by name. -/
  | transport (kind : String)
  /-- A chain of references is longer than its budget. -/
  | budgetExhausted
  deriving DecidableEq, Repr, Inhabited

namespace Fault

/-- Faults of a single request, after which the request may be tried again. -/
def isRequestFault : Fault → Bool
  | .httpStatus _ | .tooManyRedirects | .transport _ => true
  | _ => false

/-- Faults that the operating system reports about a file. -/
def isFileFault : Fault → Bool
  | .unreadableFile | .noSuchFile | .isDirectory | .notDirectory => true
  | _ => false

end Fault

end SchemaGraph
