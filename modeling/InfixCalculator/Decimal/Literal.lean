import InfixCalculator.Binary64.Rounding

/-!
# Decimal literals

A literal is an optional minus sign, digits, and optionally a point with more
digits after it: `-?[0-9]+(\.[0-9]+)?`.  It stands for the binary64 value
nearest to the decimal number, however many digits it has.
-/

namespace InfixCalculator.Decimal

/-- The value of `whole.fraction`, where the fraction may be empty. -/
def ofDigits (negative : Bool) (whole fraction : List Char) : Float :=
  Binary64.nearest negative (Nat.ofDigitChars 10 (whole ++ fraction) 0) (Nat.pow 10 fraction.length)

def readMagnitude? (negative : Bool) (text : List Char) : Option Float :=
  let whole := text.takeWhile Char.isDigit
  if whole.isEmpty then none
  else
    match text.dropWhile Char.isDigit with
    | [] => some (ofDigits negative whole [])
    | '.' :: fraction =>
      if !fraction.isEmpty && fraction.all Char.isDigit then
        some (ofDigits negative whole fraction)
      else none
    | _ => none

/-- Reads a literal; any other text has no value. -/
def read? : List Char → Option Float
  | '-' :: magnitude => readMagnitude? true magnitude
  | text => readMagnitude? false text

end InfixCalculator.Decimal
