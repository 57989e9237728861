import InfixCalculator.Decimal.Shortest
import InfixCalculator.Text.Blank

/-!
# Texts of values

A finite value is written in positional notation, whatever its magnitude, with
the digits of its shortest decimal and no fraction when that decimal is whole.
The lists of tokens and the result field differ only in how they write an
infinity and a negative zero.
-/

namespace InfixCalculator.Decimal

/-- The digits of a number after the point, `places` of them, without the zeros at
their end. -/
def fractionDigits (places n : Nat) : List Char :=
  let digits := Nat.toDigits 10 n
  Text.dropEndWhile (· == '0') (List.replicate (places - digits.length) '0' ++ digits)

def positional (multiple : Multiple) : List Char :=
  let digits := Nat.toDigits 10
  if 1074 ≤ multiple.power then
    digits multiple.count ++ List.replicate (multiple.power - 1074) '0'
  else
    let places := 1074 - multiple.power
    let whole := digits (multiple.count / Nat.pow 10 places)
    match fractionDigits places (multiple.count % Nat.pow 10 places) with
    | [] => whole
    | fraction => whole ++ '.' :: fraction

/-- How the values that have no digits of their own are written. -/
structure Style where
  infinity : String
  signedZero : Bool

/-- In a list of tokens every value keeps its sign. -/
def Style.token : Style := ⟨"inf", true⟩

/-- In the result field both zeros are written alike. -/
def Style.result : Style := ⟨"Infinity", false⟩

def Style.render (style : Style) (x : Float) : String :=
  match Binary64.shape x with
  | .nan => "NaN"
  | .infinite negative => (if negative then "-" else "") ++ style.infinity
  | .finite negative units =>
    let signed := negative && (style.signedZero || units != 0)
    (if signed then "-" else "") ++ .ofList (positional (shortest units))

end InfixCalculator.Decimal
