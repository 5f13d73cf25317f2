/-!
# Rounding

Powers with an integer exponent and the one rounding rule that all number formats here share: to the nearest neighbour,
and from the middle to the even one.
-/

namespace QueryFederation.Number

/-- A power of a natural number with any integer exponent. -/
def power (base : Nat) (e : Int) : Rat :=
  if 0 ≤ e then (Nat.pow base e.toNat : Rat) else 1 / (Nat.pow base (-e).toNat : Rat)

/-- The nearest integer; of two equally near ones the even. -/
def roundHalfEven (q : Rat) : Int :=
  let below := q.floor
  let rest := q - below
  if rest < 1 / 2 then below
  else if 1 / 2 < rest then below + 1
  else if below % 2 = 0 then below
  else below + 1

/-- The nearest multiple of `10 ^ (-places)`; of two equally near ones the even. -/
def roundToPlaces (q : Rat) (places : Int) : Rat :=
  roundHalfEven (q * power 10 places) * power 10 (-places)

/-- The exponent of the leading binary digit of a positive number: `2 ^ e ≤ q < 2 ^ (e + 1)`. -/
def binaryExponent (q : Rat) : Int :=
  let estimate : Int := (q.num.natAbs.log2 : Int) - q.den.log2
  if power 2 estimate ≤ q then estimate else estimate - 1

/-- How many decimal digits a natural number has; zero has none. -/
def decimalLength (n : Nat) : Nat := if n = 0 then 0 else (toString n).length

/-- The exponent of the leading decimal digit of a positive number: `10 ^ e ≤ q < 10 ^ (e + 1)`. -/
def decimalExponent (q : Rat) : Int :=
  let estimate : Int := (decimalLength q.num.natAbs : Int) - decimalLength q.den
  if power 10 estimate ≤ q then estimate else estimate - 1

theorem roundHalfEven_intCast (n : Int) : roundHalfEven n = n := by
  have h : (n : Rat) - (n : Rat) < 1 / 2 := by
    rw [Rat.sub_eq_add_neg, Rat.add_neg_cancel]
    decide +kernel
  simp only [roundHalfEven, Rat.floor_intCast, if_pos h]

end QueryFederation.Number
