import SchemaGraph.Fault
import SchemaGraph.Location.Host
import SchemaGraph.Text.Case

/-!
# URLs

A URL is cut into scheme, authority, path, parameters, query and fragment, and a second URL can be
read relative to it.  Whether a relative path or an authority has a meaning depends on the scheme.
-/

namespace SchemaGraph

/-- The parts of a URL; a part that is absent is empty. -/
structure Url where
  scheme : String
  authority : List Char
  path : List Char
  parameters : List Char
  query : List Char
  fragment : List Char
  deriving Inhabited

namespace Url

/-- Schemes under which a path may be given relative to another. -/
def relativeSchemes : List String :=
  ["", "ftp", "http", "gopher", "nntp", "imap", "wais", "file", "https", "shttp", "mms",
    "prospero", "rtsp", "rtsps", "rtspu", "sftp", "svn", "svn+ssh", "ws", "wss"]

/-- Schemes under which a URL has an authority. -/
def authoritySchemes : List String :=
  ["", "ftp", "http", "gopher", "nntp", "telnet", "imap", "wais", "file", "mms", "https", "shttp",
    "snews", "prospero", "rtsp", "rtsps", "rtspu", "rsync", "svn", "svn+ssh", "sftp", "nfs",
    "git", "git+ssh", "ws", "wss"]

/-- Schemes under which the last part of the path may carry parameters. -/
def parameterSchemes : List String :=
  ["", "ftp", "hdl", "prospero", "http", "imap", "https", "shttp", "rtsp", "rtsps", "rtspu", "sip",
    "sips", "mms", "sftp", "tel"]

/-- Whether a character may stand in a scheme. -/
def isSchemeChar (c : Char) : Bool :=
  c.isAlphanum || c == '+' || c == '-' || c == '.'

/-- The scheme in front of the first colon, and the text after it. -/
def scheme? (text : List Char) : Option (List Char × List Char) :=
  match Pieces.splitFirst ':' text with
  | (name, some rest) =>
    match name with
    | c :: _ => if c.isAlpha ∧ name.all isSchemeChar then some (name, rest) else none
    | [] => none
  | (_, none) => none

/-- The text after a scheme and two slashes, if it starts so. -/
def schemeSlashes? (text : List Char) : Option (List Char × List Char) :=
  match scheme? text with
  | some (name, '/' :: '/' :: rest) => some (name, rest)
  | _ => none

/-- Where an authority ends. -/
def endsAuthority (c : Char) : Bool := c == '/' || c == '?' || c == '#'

/-- The code points of characters that stand for a separator in another form, such as the slash of
full width. -/
def disguisedSeparators : List Nat :=
  [0x2047, 0x2048, 0x2049, 0x2100, 0x2101, 0x2105, 0x2106, 0x2A74, 0xFE13, 0xFE16, 0xFE55, 0xFE56,
    0xFE5F, 0xFE6B, 0xFF03, 0xFF0F, 0xFF1A, 0xFF1F, 0xFF20]

/-- Whether brackets come in pairs and hold an address. -/
def validBrackets (authority : List Char) : Bool :=
  match authority.contains '[', authority.contains ']' with
  | false, false => true
  | true, true =>
    let inside := ((Pieces.splitFirst '[' authority).2.getD [])
    Host.isBracketed (Pieces.splitFirst ']' inside).1
  | _, _ => false

/-- What an authority is checked for: its brackets, and that no separator is disguised. -/
def validAuthority (authority : List Char) : Bool :=
  validBrackets authority && authority.all fun c => !disguisedSeparators.contains c.toNat

/-- A text without leading blanks and control characters, and without tabs and line ends. -/
def clean (text : List Char) : List Char :=
  (text.dropWhile fun c => c.toNat ≤ 0x20).filter fun c => c ≠ '\t' ∧ c ≠ '\n' ∧ c ≠ '\r'

/-- The parameters behind the first semicolon of the last part of a path. -/
def splitParameters (path : List Char) : List Char × List Char :=
  match Pieces.splitLast '/' path with
  | (some before, last) =>
    match Pieces.splitFirst ';' last with
    | (name, some parameters) => (before ++ '/' :: name, parameters)
    | (_, none) => (path, [])
  | (none, _) =>
    match Pieces.splitFirst ';' path with
    | (name, some parameters) => (name, parameters)
    | (_, none) => (path, [])

/-- Cut a text into the parts of a URL.  A text without a scheme is read under the given one. -/
def read (underScheme : String) (text : List Char) : Except Fault Url :=
  let text := clean text
  let (scheme, text) := match scheme? text with
    | some (name, rest) => (Case.lower (String.ofList name), rest)
    | none => (underScheme, text)
  let (authority, text) := match text with
    | '/' :: '/' :: rest =>
      (rest.takeWhile (! endsAuthority ·), rest.dropWhile (! endsAuthority ·))
    | _ => ([], text)
  if ! validAuthority authority then .error .invalidValue
  else
    let (text, fragment) := Pieces.splitFirst '#' text
    let (path, query) := Pieces.splitFirst '?' text
    let (path, parameters) :=
      if parameterSchemes.contains scheme then splitParameters path else (path, [])
    .ok ⟨scheme, authority, path, parameters, query.getD [], fragment.getD []⟩

/-- The text of a URL. -/
def text (url : Url) : String :=
  let path :=
    if url.parameters.isEmpty then url.path else url.path ++ ';' :: url.parameters
  let withAuthority :=
    !url.authority.isEmpty || (url.scheme != "" && authoritySchemes.contains url.scheme) ||
      path.take 2 == ['/', '/']
  let rooted := match path with
    | [] | '/' :: _ => path
    | _ => '/' :: path
  let located := if withAuthority then '/' :: '/' :: url.authority ++ rooted else path
  let named := if url.scheme = "" then located else url.scheme.toList ++ ':' :: located
  let asked := if url.query.isEmpty then named else named ++ '?' :: url.query
  String.ofList (if url.fragment.isEmpty then asked else asked ++ '#' :: url.fragment)

/-- Take one segment more, onto the segments taken so far, last first. -/
def climb (taken : List (List Char)) (segment : List Char) : List (List Char) :=
  if segment = ['.', '.'] then taken.tail
  else if segment = ['.'] then taken
  else segment :: taken

/-- Segments without the empty ones that are neither first nor last. -/
def dropInnerEmpty : List (List Char) → List (List Char)
  | [] => []
  | [first] => [first]
  | first :: rest => first :: rest.dropLast.filter (! ·.isEmpty) ++ [rest.getLast?.getD []]

/-- The path to which a path leads, seen from a base path. -/
def resolvePath (base path : List Char) : List Char :=
  let segments :=
    if path.head? = some '/' then Pieces.cut '/' path
    else
      let parts := Pieces.cut '/' base
      let folder := if parts.getLast? = some [] then parts else parts.dropLast
      dropInnerEmpty (folder ++ Pieces.cut '/' path)
  let taken := (segments.foldl climb []).reverse
  let last := segments.getLast?.getD []
  let closed := if last = ['.'] ∨ last = ['.', '.'] then taken ++ [[]] else taken
  let joined := Pieces.join '/' closed
  if joined.isEmpty then ['/'] else joined

/-- Read a text as a URL relative to a base. -/
def join (base relative : String) : Except Fault String := do
  if base = "" then return relative
  if relative = "" then return base
  let b ← read "" base.toList
  let r ← read b.scheme relative.toList
  if r.scheme ≠ b.scheme ∨ ¬ relativeSchemes.contains r.scheme then return relative
  let inherits := authoritySchemes.contains r.scheme
  if inherits ∧ ! r.authority.isEmpty then return r.text
  let authority := if inherits then b.authority else r.authority
  if r.path.isEmpty ∧ r.parameters.isEmpty then
    let query := if r.query.isEmpty then b.query else r.query
    return ({ r with
      authority := authority, path := b.path, parameters := b.parameters, query := query } : Url).text
  return ({ r with authority := authority, path := resolvePath b.path r.path } : Url).text

/-- The host of an authority: without user, port and brackets, in lower case. -/
def host (url : Url) : String :=
  let place := (Pieces.splitLast '@' url.authority).2
  let name := match Pieces.splitFirst '[' place with
    | (_, some bracketed) => (Pieces.splitFirst ']' bracketed).1
    | (_, none) => (Pieces.splitFirst ':' place).1
  match Pieces.splitFirst '%' name with
  | (address, none) => Case.lower (String.ofList address)
  | (address, some zone) => Case.lower (String.ofList address) ++ "%" ++ String.ofList zone

end Url

end SchemaGraph
