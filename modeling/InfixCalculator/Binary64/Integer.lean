import InfixCalculator.Binary64.Rounding

/-!
# Division of whole parts

Integer division drops the fractions of both sides, divides in 64-bit signed
integers towards minus infinity and turns the quotient back into a value.
-/

namespace InfixCalculator.Binary64

/-- The whole part of a value, dropped towards zero and clamped to 64 bits.
A value that is no number counts as `0`. -/
def toInt64 (x : Float) : Int64 :=
  match shape x with
  | .nan => 0
  | .infinite negative => if negative then .minValue else .maxValue
  | .finite negative units =>
    let whole : Int := (units / Nat.pow 2 1074 : Nat)
    .ofIntClamp (if negative then -whole else whole)

/-- The floor of the exact quotient.  A divisor of `-1` is a negation, as the one
quotient without a place in 64 bits, that of the least integer, wraps round to it. -/
def floorQuotient (a b : Int64) : Int64 :=
  if b = -1 then -a else .ofInt (a.toInt.fdiv b.toInt)

end InfixCalculator.Binary64
