import QueryFederation.Description.Reading
import QueryFederation.Discovery.Suggestion
import QueryFederation.Http.Request
import QueryFederation.Source.Schema

/-!
# The bodies of requests

What the body of a request asks for. Data that is no record is told to be that wherever a record should be, and every
path to a problem starts at the body.
-/

namespace QueryFederation.Http

structure CompileRequest where
  description : Description
  language : Option String := none

structure ExecuteRequest where
  description : Description
  time : Option Double := none

structure SuggestRequest where
  tables : List TableSchema := []
  references : List TableReference := []
  hints : List Discovery.Hint := []

namespace Read

open QueryFederation.Read

def time (v : Value) : Checked Double :=
  (double v).andThen fun x => if x.isSpent || x.isNan then .problem (.notBelow 0) else .ok x

def validateRequest : Value → Checked Description :=
  record "ValidateRequest" fun row => required row "description" description

def compileRequest : Value → Checked CompileRequest :=
  record "CompileRequest" fun row =>
    CompileRequest.mk <$> required row "description" description <*> defaulted row "dialect" (optional text) none

def executeRequest : Value → Checked ExecuteRequest :=
  record "ExecuteRequest" fun row =>
    ExecuteRequest.mk <$> required row "description" description
      <*> defaulted row "timeout_seconds" (optional time) none

def suggestRequest : Value → Checked SuggestRequest :=
  record "JoinSuggestRequest" fun row =>
    SuggestRequest.mk <$> defaulted row "tables" (list tableSchema) []
      <*> defaulted row "references" (list tableReference) [] <*> defaulted row "hints" (list hint) []

end Read

def bodyProblem (p : Problem) : Problem :=
  let kind := match p.kind with
    | .notRecord _ => .notDecoded
    | kind => kind
  ⟨kind, .field "body" :: p.path⟩

def ofChecked {α : Type} : Checked α → Except Malformed α
  | .ok a => .ok a
  | .bad problems => .error ⟨.values, problems.map bodyProblem⟩

/-- The data of a body; what is not said to be JSON is left as bytes, and an empty body is none. -/
def Request.data? (r : Request) : Except Malformed (Option Value) :=
  if r.text.isEmpty then .ok none
  else if !r.isJson then .ok (some (.bytes r.text.toUTF8.toList))
  else match Json.ofText? r.text with
    | some v => .ok (some v)
    | none => .error ⟨.text, [bodyProblem { kind := .unreadableText }]⟩

def readBody {α : Type} (read : Value → Checked α) : Option Value → Except Malformed α
  | some v => ofChecked (read v)
  | none => ofChecked (.problem .missing)

def preparedBody : Option Value → Except DescriptionError (Option Value)
  | some (.record row) =>
    match row.lookup "description" with
    | some v => do return some (.record (Entries.put row "description" (← Description.prepared v)))
    | none => .ok (some (.record row))
  | v => .ok v

end QueryFederation.Http
