import SchemaGraph.Config
import SchemaGraph.Location.Url

/-!
# Which documents may be fetched

A document is fetched only under the schemes of the web, only if remote references are enabled, and
only from an allowed host: one that is listed or lies in a listed domain.  An empty list allows all
hosts.
-/

namespace SchemaGraph.External

/-- The schemes under which documents are fetched. -/
def fetchable : List String := ["http", "https"]

/-- Whether a host is a domain or lies in it. -/
def hostIn (host domain : String) : Bool :=
  let domain := Case.lower domain
  host == domain || ("." ++ domain).toList.isSuffixOf host.toList

/-- Whether a host lies in one of the listed domains; the list is read only as far as needed. -/
def isListed (host : String) : List Value → Except Fault Bool
  | [] => .ok false
  | .str domain :: rest => if hostIn host domain then .ok true else isListed host rest
  | .bytes _ :: _ => .error .typeMismatch
  | _ :: _ => .error .missingMember

/-- Whether documents may be fetched from a host. -/
def allowsHost (settings : ExternalSettings) (host : String) : Except Fault Bool := do
  if settings.allowedDomains.truthy then isListed host (← settings.allowedDomains.iterate)
  else return true

/-- Check that a document may be fetched from a URL. -/
def checkUrl (settings : ExternalSettings) (url : String) : Except Failure Unit := do
  let parts ← orFail (Url.read "" url.toList)
  if !fetchable.contains parts.scheme then
    throw (.unavailable (.unsupportedScheme parts.scheme url))
  if !settings.enableRemoteReferences.truthy then throw (.unavailable (.remoteDisabled url))
  let host := Case.lower parts.host
  if !(← orFail (allowsHost settings host)) then
    throw (.unavailable (.forbiddenDomain host url))

end SchemaGraph.External
