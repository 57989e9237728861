/-!
# Binary64 values as whole numbers

Every finite binary64 value is a whole number of units of `2⁻¹⁰⁷⁴`, up to its
sign.  `shape` reads that number off the bits, so that conversions and texts
can be computed exactly with natural numbers.

The 63 bits below the sign are called the *code* of a magnitude.  Codes are
ordered as the magnitudes are, and the first code that is not finite stands for
infinity.
-/

namespace InfixCalculator.Binary64

inductive Shape where
  | nan
  | infinite (negative : Bool)
  | finite (negative : Bool) (units : Nat)
deriving DecidableEq, Repr

def infinityCode : Nat := 2047 * Nat.pow 2 52

/-- The number of units of `2⁻¹⁰⁷⁴` in the magnitude with a finite code. -/
def unitsOfCode (code : Nat) : Nat :=
  if code < Nat.pow 2 52 then code
  else (Nat.pow 2 52 + code % Nat.pow 2 52) * Nat.pow 2 (code / Nat.pow 2 52 - 1)

def shape (x : Float) : Shape :=
  let bits := x.toBits.toNat
  let negative := decide (Nat.pow 2 63 ≤ bits)
  let code := bits % Nat.pow 2 63
  if code < infinityCode then .finite negative (unitsOfCode code)
  else if code = infinityCode then .infinite negative
  else .nan

/-- The value with a given sign and magnitude code. -/
def ofCode (negative : Bool) (code : Nat) : Float :=
  .ofBits (.ofNat ((if negative then Nat.pow 2 63 else 0) + code))

def nan : Float := ofCode false (infinityCode + Nat.pow 2 51)

end InfixCalculator.Binary64
