import InfixCalculator.Binary64.Integer
import InfixCalculator.Binary64.Remainder
import InfixCalculator.Refusal

/-!
# Arithmetic

Each operator applied to two values.  Only the integer division can refuse its
operands.
-/

namespace InfixCalculator.Operator

def apply (op : Operator) (left right : Float) : Except Refusal Float :=
  match op with
  | plus => .ok (left + right)
  | minus => .ok (left - right)
  | times => .ok (left * right)
  | divide => .ok (left / right)
  | modulo => .ok (Binary64.remainder left right)
  | floorDivide =>
    let divisor := Binary64.toInt64 right
    if divisor = 0 then .error .integerDivisionByZero
    else .ok (Binary64.ofInt (Binary64.floorQuotient (Binary64.toInt64 left) divisor).toInt)
  | power | caret => .ok (left.pow right)

theorem apply_eq_error_iff {op : Operator} {a b : Float} {refusal : Refusal} :
    op.apply a b = .error refusal ↔
      op = .floorDivide ∧ Binary64.toInt64 b = 0 ∧ refusal = .integerDivisionByZero := by
  cases op with
  | floorDivide =>
      simp only [apply]
      split
      next hzero => simp [hzero, eq_comm]
      next hne => simp [hne]
  | _ => simp [apply]

end InfixCalculator.Operator
