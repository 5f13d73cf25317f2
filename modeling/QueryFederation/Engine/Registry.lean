import QueryFederation.Engine.Error
import QueryFederation.Entries
import QueryFederation.Source.Retry

/-!
# Registered sources

A registry knows sources by their ids and asks them, again after a lost connection. A session remembers what sources
were asked and the pauses between attempts, also when a request fails; what a source replies may depend on what it was
asked earlier.
-/

namespace QueryFederation

structure Session where
  /-- All requests in order, each with the id of its source. -/
  asked : List (String × Request) := []
  /-- The pauses between attempts, in seconds. -/
  pauses : List Double := []
  deriving Inhabited

abbrev Serving (α : Type) := ExceptT EngineError (StateM Session) α

namespace Session

def askedOf (s : Session) (id : String) : List Request := (s.asked.filter fun (other, _) => other = id).map (·.2)

def record {α : Type} (s : Session) (id : String) (request : Request) (attempts : Attempts α) : Session :=
  { asked := s.asked ++ List.replicate attempts.count (id, request), pauses := s.pauses ++ attempts.pauses }

end Session

/-- What a reply comes to; the request had so many seconds. -/
def Reply.toExcept {α : Type} (id : String) (request : Request) (time : Double) : Reply α → Except EngineError α
  | answer a => .ok a
  | failure f => .error (.source id f)
  | fault f => .error (.computation f)
  | malformed m => .error (.malformed m)
  | breakdown b => .error (.breakdown b)
  | silence => .error (.expired (.request id request.name time))

structure Registry where
  connectors : Entries Connector := []
  retries : Nat := 1

namespace Registry

def find? (r : Registry) (id : String) : Option Connector := r.connectors.lookup id

def contains (r : Registry) (id : String) : Bool := (r.find? id).isSome

def ids (r : Registry) : List String := r.connectors.keys.mergeSort (· ≤ ·)

def sources (r : Registry) : Entries Connector := r.ids.filterMap fun id => (r.find? id).map (id, ·)

def connector (r : Registry) (id : String) : Except EngineError Connector :=
  match r.find? id with
  | some c => .ok c
  | none => .error (.unknownSource id r.ids)

/-- Can the tables of a source be joined there? What is not known can. -/
def canJoin (r : Registry) (id : String) : Bool := (r.find? id).all (·.supportsJoins)

structure Taken where
  id : String

def Taken.message (t : Taken) : String := "source '" ++ t.id ++ "' is already registered"

def register (r : Registry) (id : String) (c : Connector) : Except Taken Registry :=
  if r.contains id then .error ⟨id⟩ else .ok { r with connectors := r.connectors ++ [(id, c)] }

/-- Makes a request to a source, which has so many seconds for all attempts. -/
def ask {α : Type} (r : Registry) (id : String) (request : Request) (time : Double)
    (call : Connector → List Request → Reply α) : Serving α := do
  let connector ← r.connector id
  let earlier := (← get).askedOf id
  let script (attempt : Nat) := call connector (earlier ++ List.replicate (attempt - 1) request)
  let attempts := Attempts.ofScript script time r.retries
  modify fun s => s.record id request attempts
  attempts.reply.toExcept id request time

def tables (r : Registry) (id : String) (time : Double) : Serving (List String) :=
  r.ask id .tables time fun c earlier => c.tables earlier

def columns (r : Registry) (id table : String) (time : Double) : Serving (List ColumnDescriptor) :=
  r.ask id (.columns table) time fun c earlier => c.columns earlier table

def foreignKeys (r : Registry) (id table : String) (time : Double) : Serving (List ForeignKey) :=
  r.ask id (.foreignKeys table) time fun c earlier => c.foreignKeys earlier table

def close (r : Registry) : Serving Unit :=
  modify fun s => { s with asked := s.asked ++ r.connectors.keys.map fun id => (id, .close) }

def query (r : Registry) (id : String) (q : SourceQuery) (time : Double) : Serving RowSet :=
  r.ask id (.query q) time fun c earlier => c.query earlier q

end Registry

end QueryFederation
