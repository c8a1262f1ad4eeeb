import SchemaGraph.Main
import SchemaGraph.Proofs.Engine.History
import SchemaGraph.Proofs.Json.Canonical
import SchemaGraph.Proofs.Engine.Accounting
import SchemaGraph.Proofs.Keeping
import SchemaGraph.Proofs.Outcome
import SchemaGraph.Proofs.Resolve.Caching
import SchemaGraph.Proofs.Resolve.Congruence
import SchemaGraph.Proofs.Resolve.Enumerating
import SchemaGraph.Proofs.Resolve.Followed
import SchemaGraph.Proofs.Resolve.Following
import SchemaGraph.Proofs.Resolve.Local
import SchemaGraph.Proofs.Resolve.Remembered
import SchemaGraph.Proofs.Resolve.Sound
import SchemaGraph.Proofs.Resolve.Unrolling
import SchemaGraph.Proofs.External.Files
import SchemaGraph.Proofs.Location.Path
import SchemaGraph.Proofs.Location.Place
import SchemaGraph.Proofs.Resolve.Moved
import SchemaGraph.Proofs.Resolve.Uncached
import SchemaGraph.Proofs.Schema.Rebased
import SchemaGraph.Proofs.Document.Loaded
import SchemaGraph.Proofs.Engine.EntryPoints
import SchemaGraph.Proofs.Engine.Capacity
import SchemaGraph.Proofs.Engine.Discerning
import SchemaGraph.Proofs.Engine.Cycles
import SchemaGraph.Proofs.Schema.Projection
import SchemaGraph.Proofs.Engine.Compositions
import SchemaGraph.Proofs.Store.Queue
import SchemaGraph.Proofs.Resolve.Variants
import SchemaGraph.Proofs.Document.Readings
import SchemaGraph.Proofs.Engine.Groups
import SchemaGraph.Proofs.Schema.Seen
import SchemaGraph.Proofs.Location.Composed
import SchemaGraph.Proofs.Engine.Visited
import SchemaGraph.Proofs.Engine.Repeated
import SchemaGraph.Proofs.Schema.Addressed
import SchemaGraph.Proofs.Resolve.Streaming
import SchemaGraph.Proofs.External.Expiry
import SchemaGraph.Proofs.Engine.Refused
import SchemaGraph.Proofs.Metrics.Consistent
import SchemaGraph.Proofs.Document.Valid
import SchemaGraph.Proofs.Engine.Selecting
import SchemaGraph.Proofs.Engine.Origins
import SchemaGraph.Proofs.CommandLine
