import QueryFederation.Discovery.Candidate

/-!
# Suggesting joins

Candidates come from declared keys, from names, and from hints. Of several for the same pair of columns the surest
counts. A hint that names confirm makes their candidate a little surer; any other hint that is new is a candidate of
its own, below all others.
-/

namespace QueryFederation.Discovery

/-! ### Confidence -/

def declaredConfidence : Double := .finite 1

/-- Candidates that only hints speak for are no surer than this. -/
def hintCeiling : Double := ofHundredths 45

def hintBoost : Double := ofHundredths 5

/-- Candidates by names are no surer than this, whatever hints there are. -/
def boostedCeiling : Double := ofHundredths 90

/-- Confidences that are computed have four places. -/
def rounded (x : Double) : Double := x.roundTo 4

def boosted (confidence : Double) : Double := rounded (boostedCeiling.smaller (confidence.add hintBoost))

def hintConfidence (confidence : Double) : Double := rounded (hintCeiling.smaller (hintCeiling.mul confidence))

/-! ### Candidates -/

def isReferenced (key : ForeignKey) (t : TableSchema) : Bool :=
  let target := Text.lower key.referencedTable
  target = Text.lower t.tableName || target = Text.lower t.aliasName

def declaredCandidate (t : TableSchema) (key : ForeignKey) (other : TableSchema) : Candidate :=
  { left := ⟨t.aliasName, key.column⟩, right := ⟨other.aliasName, key.referencedColumn⟩
    confidence := declaredConfidence, evidence := .declared
    reason :=
      "declared key " ++ t.aliasName ++ "." ++ key.column ++ " -> " ++ other.aliasName ++ "." ++ key.referencedColumn }

def declaredCandidates (tables : List TableSchema) : List Candidate :=
  tables.flatMap fun t => t.foreignKeys.flatMap fun key =>
    (tables.filter fun other =>
      other.aliasName ≠ t.aliasName && isReferenced key other && other.hasColumn key.referencedColumn).map
        (declaredCandidate t key)

def namingCandidate? (left right : Place) : Option Candidate :=
  (matchColumns left right).map fun (pattern, reason) =>
    { left := ⟨left.table.aliasName, left.column.name⟩, right := ⟨right.table.aliasName, right.column.name⟩
      confidence := ofHundredths pattern.hundredths, evidence := .naming pattern, reason }

def candidatesBetween (left right : TableSchema) : List Candidate :=
  left.columns.flatMap fun l => right.columns.filterMap fun r => namingCandidate? ⟨left, l⟩ ⟨right, r⟩

def namingCandidates : List TableSchema → List Candidate
  | [] => []
  | t :: others => others.flatMap (candidatesBetween t) ++ namingCandidates others

/-- Takes a candidate if there is none for its columns or it is surer than that. -/
def offer : List Candidate → Candidate → List Candidate
  | [], c => [c]
  | best :: rest, c =>
    if best.joins c.left c.right then (if best.confidence.lt c.confidence then c else best) :: rest
    else best :: offer rest c

/-! ### Hints -/

def isApplicable (tables : List TableSchema) (hint : Hint) : Bool :=
  let has (c : ColumnRef) : Bool :=
    match tables.reverse.find? fun t => t.aliasName = c.table with
    | some t => t.hasColumn c.column
    | none => false
  hint.left.table ≠ hint.right.table && has hint.left && has hint.right

def confirmed (c : Candidate) : Candidate :=
  match c.evidence with
  | .naming _ => { c with confidence := boosted c.confidence, reason := c.reason ++ "; confirmed by hint" }
  | _ => c

def hintCandidate (hint : Hint) : Candidate :=
  { left := hint.left, right := hint.right, confidence := hintConfidence hint.confidence, evidence := .hint
    reason := if hint.reason.isEmpty then "external hint" else hint.reason }

def applyHint (hint : Hint) : List Candidate → List Candidate
  | [] => [hintCandidate hint]
  | c :: rest => if c.joins hint.left hint.right then confirmed c :: rest else c :: applyHint hint rest

/-! ### The suggestion -/

/-- Candidates below this are not suggested unless somebody asks for them. -/
def defaultThreshold : Double := ofHundredths 30

def candidates (tables : List TableSchema) (hints : List Hint) : List Candidate :=
  let found := (declaredCandidates tables ++ namingCandidates tables).foldl offer []
  (hints.filter (isApplicable tables)).foldl (fun best hint => applyHint hint best) found

/-- The candidates that are sure enough, the surest first. Nothing reaches a threshold that is not a number. -/
def suggest (tables : List TableSchema) (hints : List Hint) (threshold : Double) : List Candidate :=
  ((candidates tables hints).filter fun c => threshold.le c.confidence).mergeSort Candidate.ranksBefore

end QueryFederation.Discovery
