import InfixCalculator.Refusal
import InfixCalculator.Token

/-!
# From infix order to postfix order

Operators wait on a stack until an operator of no higher precedence, a closing
parenthesis or the end of the expression releases them.  An operator has to
follow a value; whatever else is wrong with an expression shows when the
postfix order is evaluated.

A step appends the tokens that it releases to the output.  The stack itself
never holds a number, and between two opening parentheses its precedences rise
strictly towards the top.
-/

namespace InfixCalculator.Rpn

/-- What a conversion remembers between two tokens: the tokens that wait, the
top of the stack first, and whether the last token can end a value. -/
structure Pending where
  stack : List Token
  afterValue : Bool
deriving DecidableEq

def Pending.start : Pending := ⟨[], false⟩

/-- Whether a waiting token is released before a token of a given precedence. -/
def yieldsTo (precedence : Nat) (waiting : Token) : Bool :=
  waiting != .leftParen && precedence ≤ waiting.precedence

namespace Pending

/-- An operator or an unknown symbol releases what binds at least as tightly,
and waits itself. -/
def wait (pending : Pending) (token : Token) (afterValue : Bool) : List Token × Pending :=
  let released := yieldsTo token.precedence
  (pending.stack.takeWhile released, ⟨token :: pending.stack.dropWhile released, afterValue⟩)

/-- The tokens released by the next token, and what is pending after it. -/
def step (pending : Pending) : Token → Except Refusal (List Token × Pending)
  | .number value => .ok ([.number value], ⟨pending.stack, true⟩)
  | .leftParen => .ok ([], ⟨.leftParen :: pending.stack, false⟩)
  | .rightParen =>
    match pending.stack.dropWhile (· != .leftParen) with
    | [] => .error .unbalancedParentheses
    | _ :: outer => .ok (pending.stack.takeWhile (· != .leftParen), ⟨outer, true⟩)
  | .operator op =>
    if pending.afterValue then .ok (pending.wait (.operator op) false)
    else .error (.insufficientOperands op)
  | .unknown text => .ok (pending.wait (.unknown text) true)

def finish (pending : Pending) : Except Refusal (List Token) :=
  if .leftParen ∈ pending.stack then .error .unbalancedParentheses else .ok pending.stack

/-- The rest of the postfix order, when `tokens` are still to come. -/
def convert (pending : Pending) : List Token → Except Refusal (List Token)
  | [] => pending.finish
  | token :: tokens => do
    let (released, next) ← pending.step token
    let output ← next.convert tokens
    return released ++ output

end Pending

def ofInfix (tokens : List Token) : Except Refusal (List Token) :=
  Pending.start.convert tokens

end InfixCalculator.Rpn
