import QueryFederation.Record

/-!
# Responses over HTTP

A response has a status and a body of data or of text. The time it took is told, except of a failure that was not
foreseen.

In data every value is one that JSON has: exact decimals and points in time are texts, bytes are the text they encode,
and doubles that are no numbers are null.
-/

namespace QueryFederation.Http

inductive ResponseBody where
  | data (v : Value)
  | text (s : String)

structure Response where
  status : Nat
  body : ResponseBody
  isTimed : Bool := true

namespace ResponseBody

mutual

def plain : Value → Value
  | .double .nan | .double (.infinite _) => .null
  | .decimal d => .text d.toText
  | .date d => .text d.toText
  | .timestamp t => .text t.toText
  | .bytes bs => .text ((String.fromUTF8? ⟨bs.toArray⟩).getD "")
  | .list vs => .list (plainItems vs)
  | .record fields => .record (plainFields fields)
  | v => v

def plainItems : List Value → List Value
  | [] => []
  | v :: vs => plain v :: plainItems vs

def plainFields : List (String × Value) → List (String × Value)
  | [] => []
  | (name, v) :: rest => (name, plain v) :: plainFields rest

end

end ResponseBody

namespace Response

def ok (fields : Row) : Response := ⟨200, .data (ResponseBody.plain (.record fields)), true⟩

def ofRecord (v : Value) : Response := ⟨200, .data (ResponseBody.plain v), true⟩

def failure (status : Nat) (detail : Value) : Response := ⟨status, .data (.record [("detail", detail)]), true⟩

/-- A failure that was not foreseen, of which nothing is told. -/
def internalError : Response := ⟨500, .text "Internal Server Error", false⟩

def notFound : Response := failure 404 (.text "Not Found")

def wrongMethod : Response := failure 405 (.text "Method Not Allowed")

def tooLarge (limit : Int) : Response :=
  failure 413 (.text ("Request body too large (max " ++ toString limit ++ " bytes)"))

def redirect : Response := ⟨307, .text "", true⟩

def malformed (m : Malformed) : Response := failure 422 m.toValue

def invalid (v : Validation) : Response :=
  failure 422 (.record [("message", .text "Query description is invalid"),
    ("errors", .list (v.errors.map (·.toRecord))), ("warnings", .list (v.warnings.map (·.toRecord)))])

def uncompilable (e : CompileError) : Response :=
  failure 400 (.record [("message", .text e.message), ("clause", .text e.clause),
    ("fragment", .optionalText e.fragment?)])

/-- The status for the failure of a source; a lookup asks for something by its name. -/
def sourceStatus (isLookup : Bool) (f : ConnectorFailure) : Nat :=
  if isLookup && f.reason = .tableNotFound then 404 else 502

def ofError (isLookup : Bool) (e : EngineError) : Response :=
  if e.isUnforeseen then internalError
  else
    let told (status : Nat) := failure status (.text e.message)
    match e with
    | .compilation (.invalid v) => invalid v
    | .compilation (.error e) => uncompilable e
    | .compilation _ => told 400
    | .unknownSource .. => told (if isLookup then 404 else 422)
    | .source _ f => told (sourceStatus isLookup f)
    | .expired _ | .computation .joinDeadline => told 504
    | _ => told 500

def forMethod (r : Response) (method : String) : Response := if method = "HEAD" then { r with body := .text "" } else r

end Response

end QueryFederation.Http
