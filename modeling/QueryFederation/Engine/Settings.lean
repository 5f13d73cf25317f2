import QueryFederation.Discovery.Suggestion
import QueryFederation.Json
import QueryFederation.Reading
import QueryFederation.Validation.Aggregates

/-!
# Settings

What an engine and its interface can be set to. Every setting has a default; it may be given as a value, or as a text
in the environment under its own name in any case. A value has its way over the environment; only records of both are
merged.
-/

namespace QueryFederation

structure Settings where
  logLevel : String := "INFO"
  host : String := "localhost"
  interfacePort : Int := 8000
  /-- The number to listen on that the surroundings assign. -/
  assignedPort : Option Int := none
  /-- The largest size of the body of a request, in bytes. -/
  maxBodyBytes : Int := 1024 * 1024
  subQueryTime : Double := .finite 30
  joinTime : Double := .finite 60
  connectorTime : Double := .finite 10
  /-- How often a source is asked again; less than nothing is never. -/
  connectorRetries : Int := 1
  defaultDialect : String := Dialect.name .postgres
  cleanup : Cleanup := .strip
  minJoinConfidence : Double := Discovery.defaultThreshold
  storeFiles : Entries String := []
  deriving Inhabited

inductive SettingsError where
  | unreadable (name : String)
  | malformed (m : Malformed)

namespace Settings

/-- The number to listen on: the assigned one, if there is one. -/
def effectivePort (s : Settings) : Int := s.assignedPort.getD s.interfacePort

def retries (s : Settings) : Nat := s.connectorRetries.toNat

def storeFilesName : String := "sqlite_sources"

def names : List String :=
  ["log_level", "api_server_host", "api_server_port", "port", "max_body_bytes", "sub_query_timeout_seconds",
    "join_timeout_seconds", "connector_timeout_seconds", "connector_retries", "default_dialect", "expression_cleanup",
    "min_join_confidence", storeFilesName]

def readCleanup : Value → Checked Cleanup
  | .text "rewrite" => .ok .strip
  | .text "reject" => .ok .reject
  | _ => .problem (.notWord [Cleanup.strip.name, Cleanup.reject.name])

/-- Settings from values under their names; what has another name is ignored. -/
def read (row : Row) : Checked Settings :=
  let base : Settings := {}
  Settings.mk <$> Read.defaulted row "log_level" Read.text base.logLevel
    <*> Read.defaulted row "api_server_host" Read.text base.host
    <*> Read.defaulted row "api_server_port" Read.integer base.interfacePort
    <*> Read.defaulted row "port" (Read.optional Read.integer) base.assignedPort
    <*> Read.defaulted row "max_body_bytes" Read.integer base.maxBodyBytes
    <*> Read.defaulted row "sub_query_timeout_seconds" Read.double base.subQueryTime
    <*> Read.defaulted row "join_timeout_seconds" Read.double base.joinTime
    <*> Read.defaulted row "connector_timeout_seconds" Read.double base.connectorTime
    <*> Read.defaulted row "connector_retries" Read.integer base.connectorRetries
    <*> Read.defaulted row "default_dialect" Read.text base.defaultDialect
    <*> Read.defaulted row "expression_cleanup" readCleanup base.cleanup
    <*> Read.defaulted row "min_join_confidence" Read.double base.minJoinConfidence
    <*> Read.defaulted row storeFilesName (Read.entries Read.text) base.storeFiles

/-- The setting that a text of the environment stands for; null stands for none. -/
def ofEnvironment (name s : String) : Except SettingsError (Option Value) :=
  if name = storeFilesName then
    match Json.ofText? s with
    | some .null => .ok none
    | some v => .ok (some v)
    | none => .error (.unreadable name)
  else .ok (some (.text s))

/-- The settings of the environment; of two names that differ in case only the later one counts. -/
def environmentRow (environment : List (String × String)) : Except SettingsError Row := do
  let entries := Entries.ofPairs (environment.map fun (name, s) => (Text.lower name, s))
  let found ← names.mapM fun name =>
    match entries.lookup name with
    | some s => do return (← ofEnvironment name s).map (name, ·)
    | none => return none
  return found.filterMap id

/-- Puts a value in place of another; two records become one. -/
def override : Value → Value → Value
  | .record first, .record second => .record (Entries.merge first second)
  | _, v => v

def overrideAll (environment given : Row) : Row :=
  given.foldl (fun row (name, v) =>
    Entries.put row name (match row.lookup name with
      | some first => override first v
      | none => v)) environment

def ofSources (environment : List (String × String)) (given : Row) : Except SettingsError Settings := do
  match (read (overrideAll (← environmentRow environment) given)).toExcept .values with
  | .ok settings => return settings
  | .error m => throw (.malformed m)

end Settings

end QueryFederation
