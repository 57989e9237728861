import InfixCalculator.Operator.Arithmetic
import InfixCalculator.Token

/-!
# Evaluation of postfix order

Numbers are pushed on a stack of values and an operator replaces the two values
on top, the upper one being its right operand.  An expression has a value when
exactly one is left.
-/

namespace InfixCalculator.Rpn

/-- The stack of values, top first, after one more token. -/
def push (values : List Float) : Token → Except Refusal (List Float)
  | .number value => .ok (value :: values)
  | .operator op =>
    match values with
    | right :: left :: others => (op.apply left right).map (· :: others)
    | _ => .error (.insufficientOperands op)
  | .unknown text => .error (.unknownSymbol text)
  | .leftParen => .error (.unknownSymbol "(")
  | .rightParen => .error (.unknownSymbol ")")

def result : List Float → Except Refusal Float
  | [value] => .ok value
  | values => .error (.invalidExpression values.length)

def evaluate (tokens : List Token) : Except Refusal Float :=
  tokens.foldlM push [] >>= result

end InfixCalculator.Rpn
