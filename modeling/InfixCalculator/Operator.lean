/-!
# Operators

The eight binary operators, their symbols and their levels of precedence.  All
of them associate to the left, the two powers included.
-/

namespace InfixCalculator

inductive Operator where
  | plus
  | minus
  | times
  | divide
  | modulo
  | floorDivide
  | power
  | caret
deriving DecidableEq, Repr

namespace Operator

/-- Every operator, in the order of the keypad. -/
def all : List Operator :=
  [plus, minus, times, divide, modulo, floorDivide, power, caret]

def symbol : Operator → String
  | plus => "+"
  | minus => "-"
  | times => "*"
  | divide => "/"
  | modulo => "%"
  | floorDivide => "//"
  | power => "**"
  | caret => "^"

/-- The level of precedence; a higher level binds tighter. -/
def precedence : Operator → Nat
  | plus | minus => 1
  | times | divide | modulo | floorDivide => 2
  | power | caret => 3

def ofSymbol? (text : String) : Option Operator :=
  all.find? fun op => op.symbol == text

@[simp] theorem ofSymbol?_symbol (op : Operator) : ofSymbol? op.symbol = some op := by
  cases op <;> decide

theorem symbol_of_ofSymbol?_eq_some {text : String} {op : Operator}
    (h : ofSymbol? text = some op) : op.symbol = text := by
  simpa using List.find?_some h

theorem one_le_precedence (op : Operator) : 1 ≤ op.precedence := by
  cases op <;> decide

theorem precedence_le_three (op : Operator) : op.precedence ≤ 3 := by
  cases op <;> decide

end Operator
end InfixCalculator
