import QueryFederation.Number.Double

/-!
# Numbers in order

Integers, decimals and doubles are compared by exact value, so all of them are viewed as rational numbers with two
infinities and one value, "not a number", that equals nothing and is in no order.
-/

namespace QueryFederation

inductive Extended where
  | nan
  | infinite (negative : Bool)
  | finite (value : Rat)
  deriving DecidableEq, Inhabited

namespace Extended

def ofDouble : Double → Extended
  | .nan => nan
  | .infinite negative => infinite negative
  | .negativeZero => finite 0
  | .finite q => finite q

def orderRat (p q : Rat) : Ordering := if p < q then .lt else if p = q then .eq else .gt

/-- The order of two numbers; none if one of them is not a number. -/
def order? : Extended → Extended → Option Ordering
  | nan, _ | _, nan => none
  | infinite a, infinite b => some (if a = b then .eq else if a then .lt else .gt)
  | infinite a, finite _ => some (if a then .lt else .gt)
  | finite _, infinite b => some (if b then .gt else .lt)
  | finite p, finite q => some (orderRat p q)

def same (x y : Extended) : Bool := order? x y == some .eq

end Extended

namespace Double

def lt (x y : Double) : Bool := Extended.order? (.ofDouble x) (.ofDouble y) == some .lt

def le (x y : Double) : Bool := x.lt y || Extended.same (.ofDouble x) (.ofDouble y)

/-- The first of two doubles, unless the second is smaller. -/
def smaller (x y : Double) : Double := if y.lt x then y else x

def isSpent (x : Double) : Bool := x.isNegative || x.isZero

end Double

end QueryFederation
