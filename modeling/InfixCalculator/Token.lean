import InfixCalculator.Decimal.Notation
import InfixCalculator.Operator

/-!
# Tokens

The words of an expression, in infix order as in postfix order, and the text of
a list of them.
-/

namespace InfixCalculator

inductive Token where
  | number (value : Float)
  | operator (op : Operator)
  | unknown (text : String)
  | leftParen
  | rightParen
deriving DecidableEq

namespace Token

/-- An unknown symbol binds looser than every operator. -/
def precedence : Token → Nat
  | operator op => op.precedence
  | _ => 0

def text : Token → String
  | number value => Decimal.Style.token.render value
  | operator op => op.symbol
  | unknown text => text
  | leftParen => "("
  | rightParen => ")"

def render (tokens : List Token) : String :=
  " ".intercalate (tokens.map text)

end Token
end InfixCalculator
