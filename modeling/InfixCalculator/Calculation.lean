import InfixCalculator.Rpn.Conversion
import InfixCalculator.Rpn.Evaluation
import InfixCalculator.Token.Lexer

/-!
# Calculations

An expression is cut into tokens, put into postfix order and evaluated.  A
calculation keeps its working: the text of both lists of tokens.
-/

namespace InfixCalculator

/-- The steps shown to the user: the tokens as they were read, and in postfix
order. -/
structure Working where
  tokens : String := ""
  postfixTokens : String := ""
deriving DecidableEq, Repr

structure Calculation where
  value : Float
  working : Working
deriving DecidableEq

/-- The text of the value in the result field. -/
def Calculation.result (calculation : Calculation) : String :=
  Decimal.Style.result.render calculation.value

def Calculation.ofText (text : String) : Except Refusal Calculation := do
  let tokens := Token.tokenize text
  let rpn ← Rpn.ofInfix tokens
  let value ← Rpn.evaluate rpn
  return ⟨value, ⟨Token.render tokens, Token.render rpn⟩⟩

def evaluate (text : String) : Except Refusal Float :=
  Rpn.ofInfix (Token.tokenize text) >>= Rpn.evaluate

theorem Calculation.map_value_ofText (text : String) :
    (Calculation.ofText text).map Calculation.value = evaluate text := by
  simp only [Calculation.ofText, evaluate]
  cases hrpn : Rpn.ofInfix (Token.tokenize text) with
  | error refusal => rfl
  | ok rpn =>
    cases hvalue : Rpn.evaluate rpn <;>
      simp [bind, Except.bind, pure, Except.pure, Except.map, hvalue]

end InfixCalculator
