import SchemaGraph.Schema.Node

/-!
# Failures

Every way in which a schema cannot be resolved, by its cause.  The wording of a message is in one
place.  A message that reports a fault takes the description of faults as an argument, since faults
have no wording of their own.
-/

namespace SchemaGraph

/-- The notation of a document. -/
inductive Notation where
  | json
  | yaml
  deriving DecidableEq, Repr, Inhabited

/-- A rule for documents that a document breaks. -/
inductive Violation where
  | notObject
  | noOpenapi
  | unsupportedVersion (version : Value)
  | noInfo
  | noTitle
  | noVersion
  | noPaths
  | pathsNotObject

/-- Why the members of a composition cannot be resolved. -/
inductive MemberDefect where
  | null
  | notList
  | empty
  deriving DecidableEq, Repr

/-- Why a schema of another document is not available. -/
inductive Obstacle where
  /-- The path of references leads through too many documents. -/
  | tooDeep (limit reference : Value)
  /-- The reference names no other document. -/
  | noLocation (reference : Value)
  /-- The pointer leads nowhere in the other document. -/
  | noSchema (location fragment reference : String)
  /-- The other document is not written in its notation. -/
  | unreadableNotation (form : Notation) (location : String) (fault : Fault)
  | noFile (path : String)
  | unreadableFile (path : String) (fault : Fault)
  | unsupportedScheme (scheme url : String)
  | remoteDisabled (url : String)
  | forbiddenDomain (host url : String)
  /-- All attempts to fetch the document failed; the last of them by the given fault. -/
  | notFetched (url : String) (attempts : Nat) (fault : Fault)
  | notObject (location : String)
  | noVersionField (location : String)
  | noTitleOrVersion (location : String)

/-- A setting that is refused. -/
inductive Refusal where
  | evictionFraction (fraction : Value)
  | cacheBound (bound : Value)
  | memoryThreshold (threshold : Value)
  | timerNotStarted (operation : String)
  /-- A timed operation gave up with a message of its own. -/
  | operation (message : String)

/-- Why an operation has no result. -/
inductive Failure where
  | fault (fault : Fault)
  | refused (refusal : Refusal)
  | fileNotFound (path : String)
  | unsupportedFormat (extension : String)
  | unparsable (form : Notation) (source : String) (fault : Fault)
  | invalidDocument (violation : Violation)
  | schemaNotObject (path kind : String)
  | propertiesNotObject (path : String)
  /-- A reference that is empty or no text. -/
  | noReference (reference : Value)
  /-- A mapping in place of a reference that holds none. -/
  | noReferenceKey
  | malformedReference (reference : String)
  | referenceNotFound (reference : String)
  | circularReference (reference : String)
  | externalFailed (reference : String) (cause : Failure)
  | unavailable (obstacle : Obstacle)
  | badMembers (kind : CompositionKind) (defect : MemberDefect)
  | conflictingTypes (property : Value)
  | missingDiscriminator
  | metricsDisabled

namespace Notation

/-- The name of a notation. -/
def label : Notation → String
  | .json => "JSON"
  | .yaml => "YAML"

end Notation

/-- The message for text that is not in its notation. -/
def notationMessage (describe : Fault → String) (form : Notation) (source : String)
    (fault : Fault) : String :=
  let place := if source = "" then "document" else source
  s!"Invalid {form.label} format in {place}: {describe fault}"

namespace Violation

/-- The message for a broken rule. -/
def message : Violation → String
  | .notObject => "Invalid specification: not an object"
  | .noOpenapi => "Missing required field: openapi"
  | .unsupportedVersion version =>
    s!"Unsupported OpenAPI version: {version.display}. Only 3.0.x is supported."
  | .noInfo => "Missing required field: info"
  | .noTitle => "Missing required field: info.title"
  | .noVersion => "Missing required field: info.version"
  | .noPaths => "Missing required field: paths"
  | .pathsNotObject => "Invalid field: paths must be an object"

end Violation

namespace MemberDefect

/-- The message for members that cannot be resolved. -/
def message (kind : CompositionKind) : MemberDefect → String
  | .null => s!"{kind.keyword} cannot be null"
  | .notList => s!"{kind.keyword} must be an array"
  | .empty =>
    match kind with
    | .anyOf => "anyOf schema must contain at least one variant"
    | _ => s!"{kind.keyword} array cannot be empty"

end MemberDefect

namespace Obstacle

/-- The message for an obstacle. -/
def message (describe : Fault → String) : Obstacle → String
  | .tooDeep limit reference =>
    s!"Maximum external reference depth ({limit.display}) exceeded: {reference.display}"
  | .noLocation reference => s!"Invalid external reference: {reference.display}"
  | .noSchema location fragment _ =>
    s!"Schema not found in external document {location}: #{fragment}"
  | .unreadableNotation form location fault => notationMessage describe form location fault
  | .noFile path => s!"External file not found: {path}"
  | .unreadableFile path fault => s!"Cannot read external file {path}: {describe fault}"
  | .unsupportedScheme scheme url => s!"Unsupported URL scheme '{scheme}': {url}"
  | .remoteDisabled url => s!"Remote references are disabled: {url}"
  | .forbiddenDomain host url => s!"Domain '{host}' is not in the allowed domains list: {url}"
  | .notFetched url attempts fault =>
    s!"Failed to fetch {url} after {attempts} attempt(s): {describe fault}"
  | .notObject location => s!"External document {location} is not an object"
  | .noVersionField location =>
    s!"External document {location} is missing the openapi or swagger field"
  | .noTitleOrVersion location =>
    s!"External document {location} is missing info.title or info.version"

/-- The reference that met the obstacle; null when the obstacle is in the document itself. -/
def reference : Obstacle → Value
  | .tooDeep _ reference | .noLocation reference => reference
  | .noSchema _ _ reference => .str reference
  | _ => .null

/-- The failure behind an obstacle. -/
def cause? : Obstacle → Option Failure
  | .unreadableNotation form location fault => some (.unparsable form location fault)
  | .unreadableFile _ fault | .notFetched _ _ fault => some (.fault fault)
  | _ => none

end Obstacle

namespace Refusal

/-- The message for a refused setting. -/
def message : Refusal → String
  | .evictionFraction fraction =>
    s!"Eviction fraction must be between 0 and 1, got {fraction.display}"
  | .cacheBound bound => s!"Cache max_size must be positive, got {bound.display}"
  | .memoryThreshold threshold => s!"memory_threshold must not be negative, got {threshold.display}"
  | .timerNotStarted name => s!"Timer '{name}' was not started"
  | .operation reason => reason

end Refusal

namespace Failure

/-- The message for a failure. -/
def message (describe : Fault → String) : Failure → String
  | .fault f => describe f
  | .refused refusal => refusal.message
  | .fileNotFound path => s!"File not found: {path}"
  | .unsupportedFormat extension =>
    let name := if extension = "" then "(none)" else extension
    s!"Unsupported file format: {name}"
  | .unparsable form source f => notationMessage describe form source f
  | .invalidDocument violation => violation.message
  | .schemaNotObject path kind => s!"Schema at {path} must be an object, got {kind}"
  | .propertiesNotObject path => s!"'properties' at {path} must be an object"
  | .noReference reference => s!"Malformed reference: {reference.literal}"
  | .noReferenceKey => "Malformed reference: mapping has no $ref key"
  | .malformedReference reference => s!"Malformed reference: {reference}"
  | .referenceNotFound reference => s!"Reference not found: {reference}"
  | .circularReference reference => s!"Circular reference detected: {reference}"
  | .externalFailed reference _ => s!"Failed to resolve external reference: {reference}"
  | .unavailable obstacle => obstacle.message describe
  | .badMembers kind defect => defect.message kind
  | .conflictingTypes property =>
    s!"Property '{property.display}' has conflicting types in allOf schemas"
  | .missingDiscriminator => "oneOf schema without discriminator property"
  | .metricsDisabled => "Performance metrics are not enabled"

/-- The reference that a failure is about; null if it is about none. -/
def reference : Failure → Value
  | .malformedReference reference | .referenceNotFound reference | .circularReference reference
  | .externalFailed reference _ => .str reference
  | .unavailable obstacle => obstacle.reference
  | _ => .null

/-- The failure that led to this one. -/
def cause? : Failure → Option Failure
  | .unparsable _ _ f => some (.fault f)
  | .externalFailed _ cause => some cause
  | .unavailable obstacle => obstacle.cause?
  | _ => none

/-- Whether a failure belongs to schema resolution, and is not a fault below its level. -/
def isResolutionFailure : Failure → Bool
  | .fault _ | .refused _ => false
  | _ => true

end Failure

/-- An operation below the level of resolution, as a step of resolution. -/
def orFail {α : Type} : Except Fault α → Except Failure α
  | .ok a => .ok a
  | .error fault => .error (.fault fault)

end SchemaGraph
