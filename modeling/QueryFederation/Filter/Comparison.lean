import QueryFederation.Filter.Operator
import QueryFederation.Logic
import QueryFederation.Text.Pattern
import QueryFederation.Value.Arithmetic

/-!
# Filters on values

What a filter says of one value. A null value makes every filter unknown except the two tests for null. Numbers are
compared with numeric texts as numbers; texts alone are compared as texts.
-/

namespace QueryFederation

namespace Value

/-- Both values in their numeric view, if one of them is a number. -/
def coercePair (a b : Value) : Value × Value :=
  if a.isNumber || b.isNumber then (a.asNumber, b.asNumber) else (a, b)

def sameCoerced (a b : Value) : Bool := let (x, y) := coercePair a b; same x y

/-- Is the value before, at or after the target, as `holds` asks? Unknown if the target is null. -/
def ordered (holds : Ordering → Bool) (v target : Value) : Outcome Truth :=
  if v.isNull || target.isNull then .ok none
  else
    let (a, b) := coercePair v target
    match order? a b with
    | none => .error (.incomparable a b)
    | some none => .ok (some false)
    | some (some o) => .ok (some (holds o))

/-- The items that a value is made of: those of a list, the characters of a text, the keys of a record, or bytes. -/
def parts : Value → Outcome (List Value)
  | list items => .ok items
  | text s => .ok (s.toList.map fun c => text (String.singleton c))
  | record fields => .ok (fields.map fun (key, _) => text key)
  | bytes bs => .ok (bs.map fun b => integer b.toNat)
  | _ => .error .operandType

def bounds (target : Value) : Outcome (Value × Value) := do
  match ← target.parts with
  | [low, high] => return (low, high)
  | _ => throw .operandValue

/-- Does the text of the value follow the LIKE text, whatever its case? -/
def followsLike (v target : Value) : Bool :=
  (Text.Pattern.ofText (Text.Pattern.likeText target.toText)).isFoundIn ⟨true, true⟩ v.toText

end Value

def FilterOperator.holds (operator : FilterOperator) (v target : Value) : Outcome Truth :=
  match operator with
  | .isNull => .ok (some v.isNull)
  | .isNotNull => .ok (some !v.isNull)
  | operator =>
    if v.isNull then .ok none
    else match operator with
      | .isIn => return some ((← target.parts).any v.sameCoerced)
      | .notIn => return some !((← target.parts).any v.sameCoerced)
      | .between => do
        let (low, high) ← target.bounds
        match ← Value.ordered (· != .lt) v low with
        | some true => Value.ordered (· != .gt) v high
        | other => return other
      | .like => .ok (some (v.followsLike target))
      | .notLike => .ok (some !(v.followsLike target))
      | .eq => .ok (some (v.sameCoerced target))
      | .ne => .ok (some !(v.sameCoerced target))
      | .gt => Value.ordered (· == .gt) v target
      | .ge => Value.ordered (· != .lt) v target
      | .lt => Value.ordered (· == .lt) v target
      | .le => Value.ordered (· != .gt) v target
      | .isNull | .isNotNull => .ok none

end QueryFederation
