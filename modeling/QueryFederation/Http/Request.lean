import QueryFederation.Text.Basic
import QueryFederation.Text.Case
import QueryFederation.Text.Quoted

/-!
# Requests over HTTP

What a request asks for is in the path of its target and in its body. A body counts as JSON only if its content type
says so.
-/

namespace QueryFederation.Http

/-- A request; its body comes in one piece or in several. -/
structure Request where
  method : String
  target : String
  headers : List (String × String) := []
  body : List String := []
  deriving Inhabited

/-! ### Paths -/

/-- The byte that two hexadecimal digits behind a percent sign stand for. -/
def escapedByte? (a b : Char) : Option UInt8 := do
  match ← Text.bytesOfHex? [a, b] with
  | [byte] => some byte
  | _ => none

def unescapedBytes : List Char → List UInt8
  | [] => []
  | '%' :: a :: b :: rest =>
    match escapedByte? a b with
    | some byte => byte :: unescapedBytes rest
    | none => "%".toUTF8.toList ++ unescapedBytes (a :: b :: rest)
  | c :: rest => (String.singleton c).toUTF8.toList ++ unescapedBytes rest

/-- A text with escaped bytes put in their places; it stays as it is if they make up no text. -/
def unescaped (s : String) : String := (String.fromUTF8? ⟨(unescapedBytes s.toList).toArray⟩).getD s

namespace Request

def path (r : Request) : String :=
  unescaped (String.ofList (r.target.toList.takeWhile fun c => c ≠ '?' && c ≠ '#'))

/-- The parts of a path between slashes, the first one of which must be empty. -/
def parts (path : String) : List String := path.splitOn "/"

/-- The value of a header, whose name may be in any case. -/
def header? (r : Request) (name : String) : Option String :=
  (r.headers.find? fun (other, _) => Text.lower other = name).map (·.2)

/-! ### Bodies -/

def text (r : Request) : String := String.join r.body

def hasBody (r : Request) : Bool := ["POST", "PUT", "PATCH"].contains r.method

def toldLength? (r : Request) : Option Nat := do
  let told ← r.header? "content-length"
  if told.isEmpty || !told.all Char.isDigit then none else told.toNat?

/-- Is the body, or what the sender tells of it, larger than so many bytes? -/
def exceeds (r : Request) (limit : Int) : Bool :=
  r.toldLength?.any (fun n => limit < n) || (r.hasBody && limit < r.text.utf8ByteSize)

def isJson (r : Request) : Bool :=
  let type := ((r.header? "content-type").getD "").toList.takeWhile (· ≠ ';')
  match (Text.lower (Text.trim (String.ofList type))).splitOn "/" with
  | ["application", subtype] => subtype = "json" || "+json".toList.isSuffixOf subtype.toList
  | _ => false

end Request

end QueryFederation.Http
