import SchemaGraph.Location.Url
import SchemaGraph.Text.Numeral
import SchemaGraph.Text.Quoted

/-!
# Targets of requests

The form in which a URL is sent.  Scheme and host are in lower case, the port is left out where it
is that of the scheme, steps inside the path are carried out, and characters that may not stand in a
URL are written as percent escapes.
-/

namespace SchemaGraph

/-- The parts of a URL that is sent.  A target without a host is a path alone. -/
structure Target where
  scheme : String
  user : List Char
  host : List Char
  port : Option Int
  path : List Char
  query : Option (List Char)
  fragment : Option (List Char)
  deriving DecidableEq, Inhabited

namespace Target

/-- Characters that stand for themselves everywhere. -/
def isUnreserved (c : Char) : Bool := c.isAlphanum || "-._~".toList.contains c

/-- Whether a character may stand in a part that excludes some of the printable characters. -/
def isAllowed (excluded : String) (c : Char) : Bool :=
  isUnreserved c || (0x20 < c.toNat && c.toNat < 0x7F && !excluded.toList.contains c)

/-- What may not stand in a query. -/
def queryExcluded : String := "\"#<>"

/-- What may not stand in a path. -/
def pathExcluded : String := "\"#<>?\x60\x7b\x7d"

/-- What may not stand in a fragment. -/
def fragmentExcluded : String := "\"<>\x60"

/-- What may not stand in the name of a user. -/
def userExcluded : String := "\"#<>?\x60\x7b\x7d/;=@[\\]^|"

/-- The punctuation that may stand in a host. -/
def hostPunctuation : String := "!$&'()*+,;=\"\x60\x7b\x7d%|\\"

/-- A character as percent escapes of its octets. -/
def escape (c : Char) : List Char :=
  (String.singleton c).toUTF8.toList.flatMap fun octet =>
    '%' :: (Quoted.hex 2 octet.toNat).map Char.toUpper

/-- A text with every character escaped that may not stand in it. -/
def quote (allowed : Char → Bool) (text : List Char) : List Char :=
  text.flatMap fun c => if allowed c then [c] else escape c

/-- Whether digits follow, with three single characters between four runs of them. -/
def isFourRuns : Nat → List Char → Bool
  | 0, text => !text.isEmpty && text.all Char.isDigit
  | n + 1, text =>
    let run := text.takeWhile Char.isDigit
    (List.range run.length).any (fun i => isFourRuns n (text.drop (i + 2)))

/-- The host as it is sent; a host that looks like an address must be one. -/
def hostOf (text : List Char) : Except Fault (List Char) :=
  if text.isEmpty then .ok []
  else if isFourRuns 3 text then
    if Host.isVersion4 text then .ok text else .error .invalidUrl
  else if text.head? = some '[' ∧ text.getLast? = some ']' then
    let address := (text.drop 1).dropLast
    if Host.isScopedVersion6 address then .ok address else .error .invalidUrl
  else if text.all (·.toNat < 0x80) then
    .ok (quote (fun c => isUnreserved c || hostPunctuation.toList.contains c)
      (text.map Case.lowerChar))
  else .error .invalidUrl

/-- The port of a scheme. -/
def schemePort (scheme : String) : Option Int :=
  match scheme with
  | "http" | "ws" => some 80
  | "https" | "wss" => some 443
  | "ftp" => some 21
  | _ => none

/-- The port, if it is not that of the scheme. -/
def portOf (scheme : String) (text : List Char) : Except Fault (Option Int) :=
  if text.isEmpty then .ok none
  else match Numeral.integer 10 text with
    | .ok port => .ok (if schemePort scheme = some port then none else some port)
    | .error _ => .error .invalidUrl

/-- A path with the steps to here and to the parent carried out. -/
def settlePath (path : List Char) : List Char :=
  let parts := Pieces.cut '/' path
  if parts.contains ['.'] || parts.contains ['.', '.'] then
    let take (taken : List (List Char)) (part : List Char) : List (List Char) :=
      if part == ['.'] then taken
      else if part == ['.', '.'] then
        if taken.isEmpty || taken == [[]] then taken else taken.tail
      else part :: taken
    Pieces.join '/' (parts.foldl take []).reverse
  else path

/-- The host and the port of an authority without user. -/
def splitPort (text : List Char) : List Char × List Char :=
  match text with
  | '[' :: _ =>
    match Pieces.splitLast ']' text with
    | (some before, ':' :: port) => (before ++ [']'], port)
    | (some before, port) => (before ++ [']'], port)
    | (none, _) =>
      let (host, port) := Pieces.splitFirst ':' text
      (host, port.getD [])
  | _ =>
    let (host, port) := Pieces.splitFirst ':' text
    (host, port.getD [])

/-- Read a URL in the form in which it is sent. -/
def read (text : String) : Except Fault Target := do
  let chars := text.toList
  if 65536 < chars.length ∨ chars.any (fun c => c.toNat < 0x20 || c.toNat == 0x7F) then
    throw .invalidUrl
  let (rest, fragment) := Pieces.splitFirst '#' chars
  let (rest, query) := Pieces.splitFirst '?' rest
  let (scheme, rest) := match Url.scheme? rest with
    | some (name, rest) => (Case.lower (String.ofList name), rest)
    | none => ("", rest)
  let (authority, path) := match rest with
    | '/' :: '/' :: rest => (rest.takeWhile (· != '/'), rest.dropWhile (· != '/'))
    | _ => ([], rest)
  let (user, place) := match Pieces.splitLast '@' authority with
    | (some user, place) => (user, place)
    | (none, place) => ([], place)
  let (hostText, portText) := splitPort place
  let host ← hostOf hostText
  let port ← portOf scheme portText
  let located := !user.isEmpty || !host.isEmpty || port.isSome
  if located ∧ !path.isEmpty ∧ path.head? ≠ some '/' then throw .invalidUrl
  if !located ∧ scheme = "" ∧ (path.take 2 = ['/', '/'] ∨ path.head? = some ':') then
    throw .invalidUrl
  let path := if located || scheme != "" then settlePath path else path
  return { scheme := scheme
           user := quote (isAllowed userExcluded) user
           host := host
           port := port
           path := quote (isAllowed pathExcluded) path
           query := query.map (quote (isAllowed queryExcluded))
           fragment := fragment.map (quote (isAllowed fragmentExcluded)) }

/-- The text of a target. -/
def text (t : Target) : String :=
  let host := if t.host.contains ':' then '[' :: t.host ++ [']'] else t.host
  let user := if t.user.isEmpty then [] else t.user ++ ['@']
  let port := match t.port with
    | none => []
    | some n => ':' :: (toString n).toList
  let authority := user ++ host ++ port
  let scheme := if t.scheme = "" then [] else t.scheme.toList ++ [':']
  let place := if authority.isEmpty then [] else '/' :: '/' :: authority
  let query := match t.query with
    | none => []
    | some q => '?' :: q
  let fragment := match t.fragment with
    | none => []
    | some f => '#' :: f
  String.ofList (scheme ++ place ++ t.path ++ query ++ fragment)

/-- Whether a target says where to send it. -/
def isComplete (t : Target) : Bool := t.scheme != "" && !t.host.isEmpty

/-- The target of a request: one that does not say where to send it is sent as a path alone. -/
def ofRequest (text : String) : Except Fault Target := do
  let t ← read text
  if t.isComplete then return t
  return { t with
    scheme := ""
    user := []
    host := []
    port := none
    path := '/' :: t.path.dropWhile (· == '/')
    fragment := none }

/-- The port to which a target is sent. -/
def portNumber (t : Target) : Option Int := t.port <|> schemePort t.scheme

/-- Whether two targets are sent to one place. -/
def sameOrigin (t u : Target) : Bool :=
  t.scheme == u.scheme && t.host == u.host && t.portNumber == u.portNumber

/-- Whether a redirect only goes over to the secure scheme. -/
def isUpgrade (t u : Target) : Bool :=
  t.host == u.host && t.scheme == "http" && t.portNumber == some 80 && u.scheme == "https" &&
    u.portNumber == some 443

/-- Where a redirect leads that was answered to a target. -/
def redirect (t : Target) (location : String) : Except Fault Target := do
  let next ← match read location with
    | .ok next => pure next
    | .error _ => throw (.transport "RemoteProtocolError")
  let next :=
    if next.scheme != "" && next.host.isEmpty then { next with host := t.host } else next
  let next ←
    if next.isComplete then pure next
    else match Url.join t.text next.text with
      | .ok joined => read joined
      | .error fault => throw fault
  return if (t.fragment.getD []).isEmpty || !(next.fragment.getD []).isEmpty then next
    else { next with fragment := t.fragment }

end Target

end SchemaGraph
