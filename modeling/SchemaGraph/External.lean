import SchemaGraph.External.Fetch
import SchemaGraph.Pointer
import SchemaGraph.Schema.Parse

/-!
# Schemas of other documents

A reference with a location leads into another document, which is read from a file or fetched.  A
loaded document is kept under its location and used again until it is too old; when too many are
kept, the oldest ones are dropped.
-/

namespace SchemaGraph.External

open Resolving

/-- Whether a document that was loaded at some time is too old. -/
def isStale (settings : ExternalSettings) (loaded now : Binary64) : Except Fault Bool := do
  let limit ← settings.cacheTtlSeconds.number
  return Number.lt limit (.double (now.sub loaded))

/-- The document kept under a location.  One that is too old is dropped. -/
def recallDocument (location : String) : Resolving (Option Value) := do
  let s ← get
  if !s.externalSettings.cacheEnabled.truthy then return none
  match Ordered.get? location s.external with
  | none => return none
  | some loaded =>
    if ← check (isStale s.externalSettings loaded.time s.clock) then
      modify fun s => { s with external := Ordered.erase location s.external }
      return none
    else return some loaded.raw

/-- Keep a document under its location, and drop the oldest ones that are too many. -/
def keep (location : String) (raw : Value) : Resolving Unit := do
  let s ← get
  if s.externalSettings.cacheEnabled.truthy then
    let entries := Ordered.write location ⟨s.clock, raw⟩ s.external
    set { s with external := entries }
    let bound ← check s.externalSettings.maxCacheSize.number
    let kept := entries.length
    let fitting := (List.range (kept + 1)).filter fun dropped =>
      !Number.lt bound (.int (kept - dropped : Nat))
    match fitting.head? with
    | some dropped => modify fun s => { s with external := s.external.drop dropped }
    | none =>
      modify fun s => { s with external := [] }
      fault .emptyQueue

/-- The text of a file. -/
def readFile (location : String) : Resolving String := do
  let world ← read
  await
  let path := Path.read location
  if location.toList.contains (Char.ofNat 0) then fault .invalidValue
  if !world.isFile path then
    throw (.unavailable (.noFile (world.resolve path).text))
  emit (.opened (world.resolve path).text)
  match world.read path with
  | .ok text => return text
  | .error f =>
    if f.isFileFault then throw (.unavailable (.unreadableFile path.text f)) else fault f

/-- The notation of a text at a location: JSON if the location says so or the text looks like it. -/
def notationOf (location text : String) : Notation :=
  if ".json".toList.isSuffixOf (Case.lower location).toList then .json
  else match Blank.trimStart text.toList with
    | '\x7b' :: _ | '[' :: _ => .json
    | _ => .yaml

/-- Read a text as a document; a text that is not in its notation makes the document unavailable. -/
def parse (location text : String) : Except Failure Value :=
  match Document.parseContent (notationOf location text) location text with
  | .error (.unparsable form source f) => .error (.unavailable (.unreadableNotation form source f))
  | result => result

/-- What a document lacks that another one may refer to. -/
def defect? (location : String) : Value → Option Obstacle
  | .map entries =>
    let entry (table : Table Value) (key : String) : Value := (table.at? key).getD .null
    if !(entry entries "openapi").truthy && !(entry entries "swagger").truthy then
      some (.noVersionField location)
    else match entry entries "info" with
      | .map info =>
        if (entry info "title").truthy && (entry info "version").truthy then none
        else some (.noTitleOrVersion location)
      | _ => some (.noTitleOrVersion location)
  | _ => some (.notObject location)

/-- Load the document at a file path or URL. -/
def load (location : String) : Resolving Value := do
  match ← recallDocument location with
  | some raw => return raw
  | none =>
    let text ← if Location.isUrl location then fetch location else readFile location
    let raw ← lift (parse location text)
    match defect? location raw with
    | some obstacle => throw (.unavailable obstacle)
    | none =>
      keep location raw
      return raw

/-- The schemas of a document, whatever their type; empty if it declares none. -/
def schemasOf (raw : Value) : Value :=
  match raw.at? "components" with
  | some components => ((components.at? "schemas").getD .null).orElse (.map [])
  | none => .map []

/-- The schema that a reference names in another document.  The schema is read so that references in
it stay valid outside of that document.  `depth` is the number of references into other documents
that have already been followed. -/
def resolve (reference : Value) (base : String) (depth : Value) : Resolving Node := do
  let limit := (← get).externalSettings.maxDepth
  if Number.lt (← check limit.number) (← check depth.number) then
    throw (.unavailable (.tooDeep limit reference))
  match reference, Reference.ofValue? reference with
  | .str text, some parsed =>
    if parsed.location = "" then throw (.unavailable (.noLocation reference))
    let location ← check (Location.join base parsed.location)
    let raw ← load location
    let fragment := Reference.fragment text
    match Pointer.walk (schemasOf raw) parsed.segments with
    | .ok target => lift (Node.parse location target s!"{location}#{fragment}")
    | .error (.deadSegment _) => throw (.unavailable (.noSchema location fragment text))
    | .error f => fault f
  | _, _ => throw (.unavailable (.noLocation reference))

end SchemaGraph.External
