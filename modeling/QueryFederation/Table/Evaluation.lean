import QueryFederation.Expression.Analysis
import QueryFederation.Sql.Reading
import QueryFederation.Table.Affinity

/-!
# Expressions over stored rows

How a table store evaluates an expression. Values are ordered across kinds: null, numbers, texts, bytes; before two
values are compared, the affinity of one side may turn the other into a number or a text. Truth values are the
integers zero and one, and every number but zero counts as true. Integers that leave 64 bits become doubles; a
quotient of integers drops its fraction, and a division by zero is null.

All operands are evaluated, also those that the result does not need. So a name that stands for no column is found
whatever the rows hold.
-/

namespace QueryFederation

inductive QueryError where
  | reading (e : Sql.ReadingError)
  | noTable (name : String)
  | noColumn (name : String)
  | ambiguousColumn (name : String)
  | noFunction (name : String)
  | misusedAggregate (function : AggregateFunction)
  | misplacedStar
  | severalStatements
  | noGroups
  | sumOverflow
  deriving DecidableEq, Repr

def QueryError.message : QueryError → String
  | reading e => e.message
  | noTable name => "no such table: " ++ name
  | noColumn name => "no such column: " ++ name
  | ambiguousColumn name => "ambiguous column name: " ++ name
  | noFunction name => "no such function: " ++ name
  | misusedAggregate function => "misuse of aggregate: " ++ function.keyword ++ "()"
  | misplacedStar => "near \"*\": syntax error"
  | severalStatements => "You can only execute one statement at a time."
  | noGroups => "HAVING clause on a non-aggregate query"
  | sumOverflow => "integer overflow"

namespace Table

structure Field extends TableColumn where
  owner : String
  deriving DecidableEq, Repr, Inhabited

/-- A row of values for some columns and, if rows are grouped, the rows of its group. -/
structure Frame where
  fields : List Field
  row : List Value
  group : Option (List (List Value)) := none

structure Operand where
  value : Value
  affinity : Affinity := .none

/-! ### Order -/

def kindRank : Value → Nat
  | .null => 0
  | .text _ => 2
  | .bytes _ => 3
  | _ => 1

def storedOrder (a b : Value) : Ordering :=
  if kindRank a = kindRank b then
    match Value.order? a b with
    | some (some o) => o
    | _ => .eq
  else compare (kindRank a) (kindRank b)

/-- Two operands as they are compared. -/
def aligned (a b : Operand) : Value × Value :=
  if a.affinity.isNumeric && !b.affinity.isNumeric then (a.value, b.value.withNumericAffinity)
  else if b.affinity.isNumeric && !a.affinity.isNumeric then (a.value.withNumericAffinity, b.value)
  else if a.affinity = .text && b.affinity = .none then (a.value, b.value.withTextAffinity)
  else if b.affinity = .text && a.affinity = .none then (a.value.withTextAffinity, b.value)
  else (a.value, b.value)

def alignedOrder (a b : Operand) : Ordering := let (x, y) := aligned a b; storedOrder x y

/-! ### Numbers and truth -/

def truthValue (b : Bool) : Value := .integer (Value.boolToInt b)

def ofTruth : Truth → Value
  | none => .null
  | some b => truthValue b

/-- The longest start of a text that spells a number; zero if there is none. -/
def leadingNumber (cs : List Char) : Value :=
  let starts := (List.range (cs.length + 1)).reverse.map fun n => String.ofList (cs.take n)
  (starts.findSome? Value.ofNumericText?).getD (.integer 0)

/-- A stored value as a number; null stays. -/
def toNumber : Value → Value
  | .text s => leadingNumber s.toList
  | .bytes bs => leadingNumber (Value.asciiText bs).toList
  | v => v

def toDouble (v : Value) : Double :=
  match toNumber v with
  | .integer n => .ofRat n
  | .double x => x
  | _ => .finite 0

/-- A stored value as an integer: the fraction is dropped, and what is too large becomes the largest. -/
def toInteger (v : Value) : Int :=
  match toNumber v with
  | .integer n => n
  | .double (.infinite negative) => if negative then Value.smallestStored else Value.largestStored
  | .double x =>
    let n := x.truncate?.getD 0
    if n < Value.smallestStored then Value.smallestStored
    else if Value.largestStored < n then Value.largestStored
    else n
  | _ => 0

def toTruth (v : Value) : Truth :=
  match toNumber v with
  | .null => none
  | .integer n => some (n ≠ 0)
  | v => some !(toDouble v).isZero

/-- An operation on numbers: exact on integers as long as 64 bits suffice. -/
def arithmetic (exact : Int → Int → Int) (rounded : Double → Double → Double) (a b : Value) : Value :=
  match toNumber a, toNumber b with
  | .null, _ | _, .null => .null
  | .integer m, .integer n =>
    if Value.isStorable (exact m n) then .integer (exact m n) else .double (rounded (.ofRat m) (.ofRat n))
  | a, b => .double (rounded (toDouble a) (toDouble b))

def quotient (a b : Value) : Value :=
  match toNumber a, toNumber b with
  | .null, _ | _, .null => .null
  | .integer m, .integer n => if n = 0 then .null else .integer (m.tdiv n)
  | a, b => if (toDouble b).isZero then .null else .double ((toDouble a).div (toDouble b))

/-- The remainder of two integers, with the sign of the first. -/
def remainder (a b : Value) : Value :=
  match toNumber a, toNumber b with
  | .null, _ | _, .null => .null
  | .integer m, .integer n => if n = 0 then .null else .integer (m.tmod n)
  | a, b =>
    if toInteger b = 0 then .null else .double (.ofRat ((toInteger a).tmod (toInteger b)))

def roundHalfUp (q : Rat) (places : Nat) : Rat :=
  let unit : Rat := Nat.pow 10 places
  ((q * unit + 1 / 2).floor : Rat) / unit

def rounded (v : Value) (places : Nat) : Value :=
  match toNumber v with
  | .null => .null
  | v =>
    match toDouble v with
    | .finite q => .double (.ofRat (if q < 0 then -(roundHalfUp (-q) places) else roundHalfUp q places))
    | x => .double x

def negated (v : Value) : Value :=
  match toNumber v with
  | .integer n => if Value.isStorable (-n) then .integer (-n) else .double (.ofRat (-n))
  | .double x => .double x.neg
  | v => v

def magnitude (v : Value) : Value :=
  match toNumber v with
  | .double x => .double x.abs
  | v => if storedOrder v (.integer 0) = .lt then negated v else v

/-! ### Texts -/

def toText (v : Value) : String :=
  match v.withTextAffinity with
  | .text s => s
  | .bytes bs => Value.asciiText bs
  | _ => ""

/-- Does a text follow a LIKE text? Percent takes any piece, an underscore one character; ASCII letters of either
case are equal. -/
def followsLike : List Char → List Char → Bool
  | [], cs => cs.isEmpty
  | p :: pattern, [] => p = '%' && followsLike pattern []
  | p :: pattern, c :: cs =>
    if p = '%' then followsLike pattern (c :: cs) || followsLike (p :: pattern) cs
    else (p = '_' || p.toLower = c.toLower) && followsLike pattern cs
termination_by pattern cs => pattern.length + cs.length

def concatenated (a b : Value) : Value := if a.isNull || b.isNull then .null else .text (toText a ++ toText b)

def like (a b : Value) : Truth :=
  if a.isNull || b.isNull then none else some (followsLike (toText b).toList (toText a).toList)

/-! ### Columns -/

/-- The place of the column that a name stands for; a quoted name that stands for none is a text. -/
def Frame.place? (frame : Frame) (qualifiers : List Identifier) (name : Identifier) : Except QueryError (Option Nat) :=
  let owner := Expression.tableName qualifiers
  let places := (List.range frame.fields.length).filter fun place =>
    match frame.fields[place]? with
    | some f => sameName f.name name.name && (qualifiers.isEmpty || sameName f.owner owner)
    | none => false
  let written := ".".intercalate ((qualifiers ++ [name]).map (·.name))
  match places with
  | [place] => .ok (some place)
  | [] => if qualifiers.isEmpty && name.isQuoted then .ok none else .error (.noColumn written)
  | _ => .error (.ambiguousColumn written)

def Frame.column (frame : Frame) (qualifiers : List Identifier) (name : Identifier) : Except QueryError Operand := do
  match ← frame.place? qualifiers name with
  | some place =>
    return ⟨(frame.row[place]?).getD .null, (frame.fields[place]?.map (·.toTableColumn.affinity)).getD .none⟩
  | none => return { value := .text name.name }

/-! ### Operators -/

def comparison (holds : Ordering → Bool) (a b : Operand) : Truth :=
  if a.value.isNull || b.value.isNull then none else some (holds (alignedOrder a b))

def binaryValue (operator : BinaryOperator) (a b : Operand) : Value :=
  match operator with
  | .or => ofTruth (Truth.or (toTruth a.value) (toTruth b.value))
  | .and => ofTruth (Truth.and (toTruth a.value) (toTruth b.value))
  | .eq => ofTruth (comparison (· == .eq) a b)
  | .ne => ofTruth (comparison (· != .eq) a b)
  | .lt => ofTruth (comparison (· == .lt) a b)
  | .le => ofTruth (comparison (· != .gt) a b)
  | .gt => ofTruth (comparison (· == .gt) a b)
  | .ge => ofTruth (comparison (· != .lt) a b)
  | .add => arithmetic (· + ·) Double.add a.value b.value
  | .sub => arithmetic (· - ·) Double.sub a.value b.value
  | .mul => arithmetic (· * ·) Double.mul a.value b.value
  | .div => quotient a.value b.value
  | .mod => remainder a.value b.value

/-- Is the operand among the items? Unknown if it is not, but one of them is null. -/
def isAmong (a : Operand) (items : List Operand) : Truth :=
  items.foldl (fun found item => Truth.or found (comparison (· == .eq) a { value := item.value })) (some false)

def isBetween (a low high : Operand) : Truth :=
  Truth.and (comparison (· != .lt) a low) (comparison (· != .gt) a high)

def affinityOf (type : CastType) : Affinity := .ofDeclaredType (type.text none)

def castValue (v : Value) (affinity : Affinity) : Value :=
  if v.isNull then .null
  else match affinity with
    | .integer => .integer (toInteger v)
    | .real => .double (toDouble v)
    | .text => .text (toText v)
    | .numeric => toNumber v
    | .none => v

/-! ### Aggregates -/

def distinctStored (values : List Value) : List Value :=
  values.foldl (fun seen v => if seen.any fun w => storedOrder v w = .eq then seen else seen ++ [v]) []

/-- The sum of values as doubles, from left to right. -/
def total (values : List Value) : Double := values.foldl (fun sum v => Double.add sum (toDouble v)) (.finite 0)

def sum (values : List Value) : Except QueryError Value :=
  let numbers := values.map Value.withNumericAffinity
  let whole := numbers.filterMap Value.integer?
  if whole.length = numbers.length then
    let total := whole.foldl (· + ·) 0
    if Value.isStorable total then .ok (.integer total) else .error .sumOverflow
  else .ok (.double (total numbers))

/-- The value that no other is better than. -/
def extreme (better : Ordering) : List Value → Value
  | [] => .null
  | v :: values => values.foldl (fun best w => if storedOrder w best = better then w else best) v

def aggregateValue (function : AggregateFunction) (present : List Value) : Except QueryError Value :=
  match function with
  | .count => .ok (.integer present.length)
  | function =>
    if present.isEmpty then .ok .null
    else match function with
      | .sum => sum present
      | .avg => .ok (.double ((total present).div (.ofRat present.length)))
      | .min => .ok (extreme .lt present)
      | _ => .ok (extreme .gt present)

/-! ### Evaluation -/

mutual

/-- Does an expression put rows into groups? A call with several arguments is about one row. -/
def callsAggregate : Expression → Bool
  | .column .. | .tableStar _ | .star | .text _ | .number _ | .null | .boolean _ => false
  | .paren e | .neg e | .not e | .abs e | .cast e _ => callsAggregate e
  | .binary _ left right | .is left right | .nullif left right => callsAggregate left || callsAggregate right
  | .coalesce args | .round args | .distinct args | .construct _ args => anyCallsAggregate args
  | .aggregate _ args => args.length < 2 || anyCallsAggregate args
  | .case subject branches otherwise =>
    optionCallsAggregate subject || branchesCallAggregate branches || optionCallsAggregate otherwise
  | .conditional condition yes no => callsAggregate condition || callsAggregate yes || optionCallsAggregate no

def anyCallsAggregate : List Expression → Bool
  | [] => false
  | e :: es => callsAggregate e || anyCallsAggregate es

def optionCallsAggregate : Option Expression → Bool
  | none => false
  | some e => callsAggregate e

def branchesCallAggregate : List (Expression × Expression) → Bool
  | [] => false
  | (condition, v) :: branches => callsAggregate condition || callsAggregate v || branchesCallAggregate branches

end

def plain (v : Value) : Operand := { value := v }

def firstPresent (operands : List Operand) : Value :=
  ((operands.map (·.value)).find? fun v => !v.isNull).getD .null

/-- The smallest or largest of several values; null if one of them is. -/
def extremeOf (function : AggregateFunction) (values : List Value) : Value :=
  if values.any (·.isNull) then .null else extreme (if function = .min then .lt else .gt) values

/-- The value of a branch whose condition holds; with a subject, conditions are compared with it. -/
def chosen (subject : Option Operand) (branches : List (Operand × Operand)) (otherwise : Value) : Value :=
  let holds (condition : Operand) : Truth := match subject with
    | some s => comparison (· == .eq) s condition
    | none => toTruth condition.value
  match branches.find? fun (condition, _) => holds condition == some true with
  | some (_, v) => v.value
  | none => otherwise

/-- Is a value another, where null is null? Compared with a truth value, a number is what it counts as. -/
def isValue (a : Operand) (e : Expression) (b : Operand) : Bool :=
  match e with
  | .boolean t => toTruth a.value == some t
  | _ => if a.value.isNull || b.value.isNull then a.value.isNull && b.value.isNull else alignedOrder a b == .eq

def constructValue (c : Construct) (operands : List Operand) : Except QueryError Value :=
  match c, operands with
  | .inList, a :: items => .ok (ofTruth (isAmong a items))
  | .between, [a, low, high] => .ok (ofTruth (isBetween a low high))
  | .operator "LIKE", [a, b] => .ok (ofTruth (like a.value b.value))
  | .operator "NOT LIKE", [a, b] => .ok (ofTruth (Truth.not (like a.value b.value)))
  | .operator "||", [a, b] => .ok (concatenated a.value b.value)
  | .unknownFunction name, [c, yes] =>
    if sameName name "IIF" then .ok (chosen none [(c, yes)] .null) else .error (.noFunction name)
  | .unknownFunction name, [c, yes, no] =>
    if sameName name "IIF" then .ok (chosen none [(c, yes)] no.value) else .error (.noFunction name)
  | .unknownFunction name, _ => .error (.noFunction name)
  | .function name, _ | .aggregate name, _ => .error (.noFunction name)
  | .named _, [a] => .ok a.value
  | _, _ => .error (.reading .incomplete)

mutual

def evaluate (frame : Frame) : Expression → Except QueryError Operand
  | .column qualifiers name => frame.column qualifiers name
  | .tableStar _ | .star | .distinct _ => throw .misplacedStar
  | .text s => return plain (.text s)
  | .number s => return plain (match (Value.ofNumericText? s).getD .null with
    | .integer n => if Value.isStorable n then .integer n else .double (.ofRat n)
    | v => v)
  | .null => return plain .null
  | .boolean b => return plain (truthValue b)
  | .paren e => evaluate frame e
  | .neg e => return plain (negated (← evaluate frame e).value)
  | .not e => return plain (ofTruth (Truth.not (toTruth (← evaluate frame e).value)))
  | .binary operator left right => return plain (binaryValue operator (← evaluate frame left) (← evaluate frame right))
  | .is left right => return plain (truthValue (isValue (← evaluate frame left) right (← evaluate frame right)))
  | .coalesce args => return plain (firstPresent (← evaluateAll frame args))
  | .nullif left right => do
    let a ← evaluate frame left
    let b ← evaluate frame right
    return plain (if !a.value.isNull && storedOrder a.value b.value = .eq then .null else a.value)
  | .round args => do
    match ← evaluateAll frame args with
    | [v] => return plain (rounded v.value 0)
    | v :: places :: _ =>
      return plain (if places.value.isNull then .null else rounded v.value (min 30 (toInteger places.value)).toNat)
    | [] => throw (.noFunction "ROUND")
  | .abs e => return plain (magnitude (← evaluate frame e).value)
  | .aggregate function args => do
    match frame.group, args with
    | _, a :: b :: rest => return plain (extremeOf function ((← evaluateAll frame (a :: b :: rest)).map (·.value)))
    | none, _ => throw (.misusedAggregate function)
    | some rows, [] | some rows, [.star] => return plain (.integer rows.length)
    | some rows, [.distinct items] => do
      let values ← rows.mapM fun row => evaluateFirst { fields := frame.fields, row } items
      return plain (← aggregateValue function (distinctStored (values.filter fun v => !v.isNull)))
    | some rows, [e] => do
      let values ← rows.mapM fun row => return (← evaluate { fields := frame.fields, row } e).value
      return plain (← aggregateValue function (values.filter fun v => !v.isNull))
  | .case subject branches otherwise => do
    let subject ← evaluateOptional frame subject
    let branches ← evaluateBranches frame branches
    let otherwise ← evaluateOptional frame otherwise
    return plain (chosen subject branches ((otherwise.map (·.value)).getD .null))
  | .conditional condition yes no => do
    let condition ← evaluate frame condition
    let yes ← evaluate frame yes
    let no ← evaluateOptional frame no
    return plain (chosen none [(condition, yes)] ((no.map (·.value)).getD .null))
  | .cast e type => do
    return ⟨castValue (← evaluate frame e).value (affinityOf type), affinityOf type⟩
  | .construct c args => do return plain (← constructValue c (← evaluateAll frame args))

def evaluateAll (frame : Frame) : List Expression → Except QueryError (List Operand)
  | [] => return []
  | e :: es => return (← evaluate frame e) :: (← evaluateAll frame es)

def evaluateFirst (frame : Frame) : List Expression → Except QueryError Value
  | [] => return .null
  | e :: _ => return (← evaluate frame e).value

def evaluateOptional (frame : Frame) : Option Expression → Except QueryError (Option Operand)
  | none => return none
  | some e => return some (← evaluate frame e)

def evaluateBranches (frame : Frame) : List (Expression × Expression) → Except QueryError (List (Operand × Operand))
  | [] => return []
  | (condition, v) :: rest =>
    return ((← evaluate frame condition), (← evaluate frame v)) :: (← evaluateBranches frame rest)

end

end Table

end QueryFederation
