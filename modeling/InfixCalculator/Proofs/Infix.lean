import InfixCalculator.Token

/-!
# The infix grammar

An expression is a chain of operands with an operator between any two, and an
operand is a leaf or an expression in parentheses.  Leaves are numbers where
tokens matter and literals where their text matters.

The grammar knows nothing of precedence: a chain keeps its operands in the order
in which they are written.
-/

namespace InfixCalculator

mutual

/-- `E ::= A (op A)*` -/
inductive Infix (α : Type) where
  | operand (atom : Operand α)
  | chain (left : Infix α) (op : Operator) (right : Operand α)

/-- `A ::= leaf | ( E )` -/
inductive Operand (α : Type) where
  | leaf (x : α)
  | group (inner : Infix α)

end

mutual

def Infix.tokens (value : α → Float) : Infix α → List Token
  | .operand atom => atom.tokens value
  | .chain left op right => left.tokens value ++ .operator op :: right.tokens value

def Operand.tokens (value : α → Float) : Operand α → List Token
  | .leaf x => [.number (value x)]
  | .group inner => .leftParen :: inner.tokens value ++ [.rightParen]

end

/-- Two expressions with an operator between them are one chain. -/
def Infix.join (left : Infix α) (op : Operator) : Infix α → Infix α
  | .operand atom => .chain left op atom
  | .chain middle op' right => .chain (left.join op middle) op' right

theorem Infix.tokens_join (value : α → Float) (left : Infix α) (op : Operator)
    (right : Infix α) :
    (left.join op right).tokens value =
      left.tokens value ++ .operator op :: right.tokens value := by
  match right with
  | .operand atom => rfl
  | .chain middle op' last =>
      rw [join, tokens, tokens_join value left op middle, tokens]
      simp

namespace Token

def endsOperand : Token → Bool
  | number _ | rightParen => true
  | _ => false

end Token

/-- An operand is complete at the end of these tokens. -/
def EndsOperand (tokens : List Token) : Prop :=
  tokens.getLast?.any Token.endsOperand = true

@[simp] theorem endsOperand_concat (tokens : List Token) (token : Token) :
    EndsOperand (tokens ++ [token]) ↔ token.endsOperand = true := by
  simp [EndsOperand]

theorem endsOperand_append {before tokens : List Token} (htokens : EndsOperand tokens) :
    EndsOperand (before ++ tokens) := by
  unfold EndsOperand at *
  rw [List.getLast?_append]
  cases hlast : tokens.getLast? with
  | none => simp [hlast] at htokens
  | some token => simpa [hlast] using htokens

theorem Operand.endsOperand_tokens (value : α → Float) (atom : Operand α) :
    EndsOperand (atom.tokens value) := by
  cases atom with
  | leaf x => rfl
  | group inner =>
      rw [tokens, endsOperand_concat]
      rfl

theorem Infix.endsOperand_tokens (value : α → Float) (expression : Infix α) :
    EndsOperand (expression.tokens value) := by
  cases expression with
  | operand atom => exact atom.endsOperand_tokens value
  | chain left op right =>
      rw [tokens, ← List.singleton_append, ← List.append_assoc]
      exact endsOperand_append (right.endsOperand_tokens value)

end InfixCalculator
