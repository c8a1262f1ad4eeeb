import SchemaGraph.Failure

/-!
# Settings

The settings come in four sections.  A setting is kept as it was written, whatever its type: it is
looked at only where it takes effect.  Sections and settings with unknown names are ignored.
-/

namespace SchemaGraph

/-- Settings of the caches of resolved schemas. -/
structure CacheSettings where
  enabled : Value := .bool true
  /-- The greatest number of entries of each cache. -/
  maxSize : Value := .int 1000
  /-- Whether failed references to other documents are remembered. -/
  cacheExternalFailures : Value := .bool false
  deriving Inhabited

/-- Settings of memory cleanup and of enumeration in batches. -/
structure MemorySettings where
  enabled : Value := .bool false
  /-- Resident memory, in bytes, at which a cleanup drops entries. -/
  memoryThreshold : Value := .int (100 * 1024 * 1024)
  streamingMode : Value := .bool false
  deriving Inhabited

/-- Settings of the performance metrics. -/
structure MetricsSettings where
  enabled : Value := .bool false
  deriving Inhabited

/-- Settings of references into other documents. -/
structure ExternalSettings where
  /-- Whether documents may be fetched; files may always be read. -/
  enableRemoteReferences : Value := .bool true
  /-- The greatest number of references to other documents on one path. -/
  maxDepth : Value := .int 10
  timeoutMs : Value := .int 30000
  /-- Hosts from which documents may be fetched; none stands for all. -/
  allowedDomains : Value := .list []
  /-- How often a failed request is tried again. -/
  retries : Value := .int 2
  retryBackoffSeconds : Value := .double (Binary64.ofInt 1)
  maxRedirects : Value := .int 5
  userAgent : Value := .str "openapi-schema-resolver/1.0.0"
  headers : Value := .map []
  cacheEnabled : Value := .bool true
  maxCacheSize : Value := .int 100
  /-- How long a loaded document is used. -/
  cacheTtlSeconds : Value := .double (Binary64.ofInt 300)
  deriving Inhabited

/-- All settings. -/
structure Config where
  cache : CacheSettings := {}
  memory : MemorySettings := {}
  metrics : MetricsSettings := {}
  external : ExternalSettings := {}
  deriving Inhabited

namespace CacheSettings

/-- Write a setting under its name. -/
def assign (s : CacheSettings) : String → Value → CacheSettings
  | "enabled", v => { s with enabled := v }
  | "max_size", v => { s with maxSize := v }
  | "cache_external_failures", v => { s with cacheExternalFailures := v }
  | _, _ => s

/-- The settings under their names. -/
def record (s : CacheSettings) : Value :=
  Value.record [("enabled", s.enabled), ("max_size", s.maxSize),
    ("cache_external_failures", s.cacheExternalFailures)]

end CacheSettings

namespace MemorySettings

/-- Write a setting under its name. -/
def assign (s : MemorySettings) : String → Value → MemorySettings
  | "enabled", v => { s with enabled := v }
  | "memory_threshold", v => { s with memoryThreshold := v }
  | "streaming_mode", v => { s with streamingMode := v }
  | _, _ => s

/-- The settings under their names. -/
def record (s : MemorySettings) : Value :=
  Value.record [("enabled", s.enabled), ("memory_threshold", s.memoryThreshold),
    ("streaming_mode", s.streamingMode)]

end MemorySettings

namespace MetricsSettings

/-- Write a setting under its name. -/
def assign (s : MetricsSettings) : String → Value → MetricsSettings
  | "enabled", v => { s with enabled := v }
  | _, _ => s

/-- The settings under their names. -/
def record (s : MetricsSettings) : Value := Value.record [("enabled", s.enabled)]

end MetricsSettings

namespace ExternalSettings

/-- Write a setting under its name. -/
def assign (s : ExternalSettings) : String → Value → ExternalSettings
  | "enable_remote_references", v => { s with enableRemoteReferences := v }
  | "max_depth", v => { s with maxDepth := v }
  | "timeout_ms", v => { s with timeoutMs := v }
  | "allowed_domains", v => { s with allowedDomains := v }
  | "retries", v => { s with retries := v }
  | "retry_backoff_seconds", v => { s with retryBackoffSeconds := v }
  | "max_redirects", v => { s with maxRedirects := v }
  | "user_agent", v => { s with userAgent := v }
  | "headers", v => { s with headers := v }
  | "cache_enabled", v => { s with cacheEnabled := v }
  | "max_cache_size", v => { s with maxCacheSize := v }
  | "cache_ttl_seconds", v => { s with cacheTtlSeconds := v }
  | _, _ => s

/-- The settings under their names. -/
def record (s : ExternalSettings) : Value :=
  Value.record [("enable_remote_references", s.enableRemoteReferences), ("max_depth", s.maxDepth),
    ("timeout_ms", s.timeoutMs), ("allowed_domains", s.allowedDomains), ("retries", s.retries),
    ("retry_backoff_seconds", s.retryBackoffSeconds), ("max_redirects", s.maxRedirects),
    ("user_agent", s.userAgent), ("headers", s.headers), ("cache_enabled", s.cacheEnabled),
    ("max_cache_size", s.maxCacheSize), ("cache_ttl_seconds", s.cacheTtlSeconds)]

end ExternalSettings

namespace Config

/-- Write the settings of a section, in order. -/
def assignAll {α : Type} (assign : α → String → Value → α) (settings : α)
    (entries : List (Value × Value)) : α :=
  entries.foldl (fun s entry =>
    match entry.1 with
    | .str name => assign s name entry.2
    | _ => s) settings

/-- Write a section under its name, if it is a mapping. -/
def assignSection (c : Config) (name values : Value) : Config :=
  match name, values with
  | .str "cache", .map entries => { c with cache := assignAll CacheSettings.assign c.cache entries }
  | .str "memory", .map entries =>
    { c with memory := assignAll MemorySettings.assign c.memory entries }
  | .str "metrics", .map entries =>
    { c with metrics := assignAll MetricsSettings.assign c.metrics entries }
  | .str "external", .map entries =>
    { c with external := assignAll ExternalSettings.assign c.external entries }
  | _, _ => c

/-- The settings written in a value, which must be a mapping. -/
def ofValue : Value → Except Fault Config
  | .map entries => .ok (entries.foldl (fun c entry => c.assignSection entry.1 entry.2) {})
  | _ => .error .missingMember

/-- The settings as a value. -/
def record (c : Config) : Value :=
  Value.record [("cache", c.cache.record), ("memory", c.memory.record),
    ("metrics", c.metrics.record), ("external", c.external.record)]

end Config

end SchemaGraph
