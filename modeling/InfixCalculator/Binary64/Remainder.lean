import InfixCalculator.Binary64.Rounding

/-!
# Remainder

The remainder of a division truncated towards zero.  It is exact and has the
sign of the dividend, also when it is zero.
-/

namespace InfixCalculator.Binary64

/-- The remainder of `x` by `y`; none is defined by zero or of an infinity. -/
def remainder (x y : Float) : Float :=
  match shape x, shape y with
  | .finite negative dividend, .finite _ divisor =>
    if divisor = 0 then nan else ofUnits negative (dividend % divisor)
  | .finite .., .infinite _ => x
  | _, _ => nan

end InfixCalculator.Binary64
