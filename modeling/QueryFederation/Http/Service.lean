import QueryFederation.Http.Body
import QueryFederation.Http.Response
import QueryFederation.Source.Tables

/-!
# The service

Which request is for what, and the response to it. A request with a body that is too large is not looked at. An engine
may be missing, and then only what needs none can be answered.
-/

namespace QueryFederation.Http

inductive Route where
  | validate
  | compile
  | execute
  | suggest
  | sources
  | tables (id : String)
  | columns (id table : String)
  | dialects
  | health
  deriving DecidableEq, Repr

namespace Route

def method : Route → String
  | validate | compile | execute | suggest => "POST"
  | sources | tables _ | columns .. | dialects | health => "GET"

/-- The route of the parts of a path; ids and names of tables are not empty. -/
def ofParts? : List String → Option Route
  | ["", "validate"] => some validate
  | ["", "compile"] => some compile
  | ["", "execute"] => some execute
  | ["", "joins", "suggest"] => some suggest
  | ["", "sources"] => some sources
  | ["", "sources", id, "tables"] => if id.isEmpty then none else some (tables id)
  | ["", "sources", id, "tables", table, "columns"] =>
    if id.isEmpty || table.isEmpty then none else some (columns id table)
  | ["", "dialects"] => some dialects
  | ["", "health"] => some health
  | _ => none

/-- The parts of a path with a slash more at the end, or with one less. -/
def otherEnding (parts : List String) : List String :=
  if parts.getLast? = some "" then parts.dropLast else parts ++ [""]

end Route

def version : String := "0.1.0"

structure Service where
  settings : Settings := {}
  engine : Option Engine := none

namespace Service

def ofStores (settings : Settings) (stores : Entries Store) : Except Registry.Taken Service := do
  let empty := Engine.ofSettings settings
  let engine ← stores.foldlM (fun e (id, store) => e.register id (.ofStore .relational store)) empty
  return { settings, engine := some engine }

def ofServing {α : Type} (isLookup : Bool) (respond : α → Response) (serving : Serving α) :
    StateM Session Response := do
  match ← serving.run with
  | .ok a => return respond a
  | .error e => return .ofError isLookup e

def ofBody {α : Type} (read : Value → Checked α) (data : Option Value) (respond : α → StateM Session Response) :
    StateM Session Response :=
  match preparedBody data with
  | .error _ => return .internalError
  | .ok data =>
    match readBody read data with
    | .ok a => respond a
    | .error m => return .malformed m

def suggestedSchemas (e : Engine) (r : SuggestRequest) : Serving (List TableSchema) := do
  return r.tables ++ (← e.schemas r.references)

def candidateRecord (c : Discovery.Candidate) : Value := .record (c.toRow ++ [("confidence_level", .text c.level.name)])

def dialectRecord (d : Dialect) : Value :=
  .record [("name", .text d.name), ("capabilities", d.capabilities.toRecord)]

def plainResponse? : Route → Option Response
  | .dialects => some (.ok [("dialects", .list (Dialect.all.map dialectRecord))])
  | .health => some (.ok [("status", .text "ok"), ("version", .text version)])
  | _ => none

def engineResponse (e : Engine) (route : Route) (data : Option Value) : StateM Session Response :=
  match route with
  | .validate => ofBody Read.validateRequest data fun d => return .ofRecord (e.validate d).toRecord
  | .compile => ofBody Read.compileRequest data fun r =>
      ofServing false (fun q => .ofRecord q.toRecord) (liftM (e.compile r.description r.language))
  | .execute => ofBody Read.executeRequest data fun r =>
      ofServing false (fun r => .ofRecord r.toRecord) (e.execute r.description r.time)
  | .suggest => ofBody Read.suggestRequest data fun r =>
      ofServing true
        (fun schemas => .ok [("candidates", .list ((e.suggestJoins schemas r.hints).map candidateRecord))])
        (suggestedSchemas e r)
  | .sources => return .ok [("sources", .list (e.registry.sources.map fun (id, c) => c.toRecord id))]
  | .tables id =>
    ofServing true (fun names => .ok [("source_id", .text id), ("tables", .list (names.map tableRecord))]) (e.tables id)
  | .columns id table =>
    ofServing true
      (fun columns => .ok [("source_id", .text id), ("table", .text table),
        ("columns", .list (columns.map (·.toRecord)))])
      (e.columns id table)
  | .dialects | .health => return .internalError

def routed (s : Service) (route : Route) (r : Request) : StateM Session Response := do
  if route.method ≠ r.method then return .wrongMethod
  match plainResponse? route with
  | some response => return response
  | none =>
    let data := if route.method = "POST" then r.data? else .ok none
    match data, s.engine with
    | .error m, _ => return .malformed m
    | .ok _, none => return .internalError
    | .ok data, some e => engineResponse e route data

def respond (s : Service) (r : Request) : StateM Session Response := do
  if r.exceeds s.settings.maxBodyBytes then return .tooLarge s.settings.maxBodyBytes
  let parts := Request.parts r.path
  match Route.ofParts? parts with
  | some route => return (← s.routed route r).forMethod r.method
  | none =>
    let isElsewhere := (Route.ofParts? (Route.otherEnding parts)).isSome
    let response : Response := if isElsewhere then .redirect else .notFound
    return response.forMethod r.method

end Service

end QueryFederation.Http
