import InfixCalculator.Operator
import InfixCalculator.Text.Blank

/-!
# The keypad

What a key adds to the text of the entry, and what is removed again.  Operators
are set off by spaces, so that they never merge with what is already there.  A
minus sign where no value can stand before it is the sign of the number typed
next, and stays attached to it.
-/

namespace InfixCalculator

inductive Key where
  | digit (d : Fin 10)
  | point
  | operator (op : Operator)
  | leftParen
  | rightParen
deriving DecidableEq, Repr

def Key.label : Key → String
  | digit d => .singleton d.val.digitChar
  | point => "."
  | operator op => op.symbol
  | leftParen => "("
  | rightParen => ")"

namespace Keypad

/-- The entry without its trailing spaces.  Other blanks are kept. -/
def stripSpaces (entry : List Char) : List Char :=
  Text.dropEndWhile (· == ' ') entry

/-- Whether the last character of an entry that is not blank ends an operand. -/
def endsOperand (entry : List Char) : Bool :=
  match entry.reverse.find? (!Text.isBlank ·) with
  | some c => c.isDigit || c == ')'
  | none => false

/-- Whether a minus sign at the end of an entry is a sign. -/
def awaitsSign (entry : List Char) : Bool :=
  match entry.getLast? with
  | none => true
  | some c => c == '('

def insertOperator (op : Operator) (entry : List Char) : List Char :=
  let kept := stripSpaces entry
  if op = .minus ∧ awaitsSign kept then kept ++ ['-']
  else
    let before := if kept.isEmpty then [] else kept ++ [' ']
    before ++ op.symbol.toList ++ [' ']

def insert (key : Key) (entry : List Char) : List Char :=
  match key with
  | .digit d => entry ++ [d.val.digitChar]
  | .point => entry ++ ['.']
  | .operator op => insertOperator op entry
  | .leftParen => if endsOperand entry then entry ++ [' ', '('] else entry ++ ['(']
  | .rightParen => stripSpaces entry ++ [')']

/-- The entry without its last symbol; an operator of two characters goes as a
whole. -/
def erase (entry : List Char) : List Char :=
  let kept := stripSpaces entry
  let doubled := ['*', '*'].isSuffixOf kept || ['/', '/'].isSuffixOf kept
  stripSpaces (if doubled then kept.dropLast.dropLast else kept.dropLast)

end Keypad
end InfixCalculator
