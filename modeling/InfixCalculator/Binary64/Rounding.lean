import InfixCalculator.Binary64.Basic

/-!
# Rounding to binary64

One rounding serves literals, whole numbers and remainders: the binary64
magnitude nearest to a quotient of natural numbers, ties to the even
significand, infinity when the rounded magnitude has no finite code.

The significand and the code need no case distinction.  When a magnitude of
`k · 2ᵉ` units has a significand `k` of 53 bits, or `e = 0`, its code is
`e · 2⁵² + k`; a carry out of the significand then moves to the next binade by
itself.
-/

namespace InfixCalculator.Binary64

/-- The natural number nearest to `num / den`, a tie going to the even one. -/
def roundHalfEven (num den : Nat) : Nat :=
  let quotient := num / den
  let rest := num % den
  if 2 * rest < den then quotient
  else if den < 2 * rest then quotient + 1
  else quotient + quotient % 2

def nearestCode (num den : Nat) : Nat :=
  let exponent := (num / den).log2 - 52
  min (exponent * Nat.pow 2 52 + roundHalfEven num (den * Nat.pow 2 exponent)) infinityCode

/-- The value nearest to `num / den`, with a given sign. -/
def nearest (negative : Bool) (num den : Nat) : Float :=
  ofCode negative (nearestCode (num * Nat.pow 2 1074) den)

def ofUnits (negative : Bool) (units : Nat) : Float :=
  ofCode negative (nearestCode units 1)

def ofInt (n : Int) : Float :=
  nearest (decide (n < 0)) n.natAbs 1

end InfixCalculator.Binary64
