import InfixCalculator.Operator

/-!
# Refusals

The reasons why an expression has no value, and the message shown for each.
-/

namespace InfixCalculator

inductive Refusal where
  | unbalancedParentheses
  | insufficientOperands (op : Operator)
  | unknownSymbol (text : String)
  | invalidExpression (remaining : Nat)
  | integerDivisionByZero
deriving DecidableEq, Repr

def Refusal.message : Refusal → String
  | unbalancedParentheses => "parenthèses non équilibrées"
  | insufficientOperands op => "opérandes insuffisants pour '" ++ op.symbol ++ "'"
  | unknownSymbol text => "opérateur inconnu: '" ++ text ++ "'"
  | invalidExpression remaining =>
    "expression invalide (" ++ remaining.repr ++ " valeur(s) restante(s))"
  | integerDivisionByZero => "division entière par zéro"

end InfixCalculator
