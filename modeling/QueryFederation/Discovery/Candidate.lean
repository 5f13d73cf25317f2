import QueryFederation.Description.Basic
import QueryFederation.Discovery.Naming
import QueryFederation.Number.Extended

/-!
# Join candidates

A join that could be made between two tables, how sure one can be of it, and why. Hints come from outside and are
believed least.
-/

namespace QueryFederation.Discovery

def ofHundredths (n : Nat) : Double := Double.ofRat ((n : Rat) / 100)

inductive Evidence where
  | declared
  | naming (pattern : NamePattern)
  | hint
  deriving DecidableEq, Repr, Inhabited

namespace Evidence

def sourceName : Evidence → String
  | declared => "foreign_key"
  | naming _ => "heuristic"
  | hint => "hint"

def patternName : Evidence → String
  | declared => "foreign_key"
  | naming pattern => pattern.name
  | hint => "external_hint"

end Evidence

inductive Level where
  | high
  | medium
  | low
  deriving DecidableEq, Repr, Inhabited

def Level.name : Level → String
  | high => "high"
  | medium => "medium"
  | low => "low"

structure Candidate where
  left : ColumnRef
  right : ColumnRef
  confidence : Double
  evidence : Evidence
  reason : String
  kind : JoinKind := .left
  deriving DecidableEq, Inhabited

namespace Candidate

def level (c : Candidate) : Level :=
  if !c.confidence.lt (ofHundredths 70) then .high
  else if !c.confidence.lt (ofHundredths 40) then .medium
  else .low

def condition (c : Candidate) : JoinCondition :=
  ⟨c.left.table, c.left.column, c.right.table, c.right.column, c.kind⟩

/-- Does the candidate join two columns, whichever is on the left? -/
def joins (c : Candidate) (a b : ColumnRef) : Bool := (c.left = a && c.right = b) || (c.left = b && c.right = a)

def names (c : Candidate) : List String := [c.left.table, c.left.column, c.right.table, c.right.column]

def textsLe : List String → List String → Bool
  | [], _ => true
  | _ :: _, [] => false
  | a :: as, b :: bs => a < b || (a = b && textsLe as bs)

def ranksBefore (a b : Candidate) : Bool :=
  if b.confidence.lt a.confidence then true
  else if a.confidence.lt b.confidence then false
  else textsLe a.names b.names

end Candidate

structure Hint where
  left : ColumnRef
  right : ColumnRef
  confidence : Double := .finite 1
  reason : String := ""
  deriving DecidableEq, Inhabited

end QueryFederation.Discovery

namespace QueryFederation.Read

open Discovery

def fraction (v : Value) : Checked Double :=
  (double v).andThen fun x =>
    if (Double.finite 1).lt x then .problem (.above 1) else if x.lt (.finite 0) then .problem (.below 0) else .ok x

def hint : Value → Checked Hint :=
  record "JoinHint" fun row =>
    (fun leftTable leftColumn rightTable rightColumn confidence reason =>
        ⟨⟨leftTable, leftColumn⟩, ⟨rightTable, rightColumn⟩, confidence, reason⟩)
      <$> required row "left_table" text <*> required row "left_column" text <*> required row "right_table" text
      <*> required row "right_column" text <*> defaulted row "confidence" fraction (.finite 1)
      <*> defaulted row "reason" text ""

end QueryFederation.Read
