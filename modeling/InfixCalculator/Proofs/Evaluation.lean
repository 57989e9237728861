import InfixCalculator.Rpn.Evaluation

/-!
# Runs of the evaluation

A token in postfix order sees only the values on top of the stack.  So a list of
tokens that can be evaluated by itself does the same above any other values, and
every one of its operators takes one value away.
-/

namespace InfixCalculator

namespace Token

def isNumber : Token → Bool
  | number _ => true
  | _ => false

def isOperator : Token → Bool
  | operator _ => true
  | _ => false

def isUnknown : Token → Bool
  | unknown _ => true
  | _ => false

end Token

namespace Rpn

open Token

/-- A token that is not refused: the values before it and after it, top first. -/
inductive Push : List Float → Token → List Float → Prop
  | number {values : List Float} (value : Float) :
      Push values (.number value) (value :: values)
  | operator {left right value : Float} {values : List Float} {op : Operator}
      (happly : op.apply left right = .ok value) :
      Push (right :: left :: values) (.operator op) (value :: values)

theorem push_eq_ok_iff {values next : List Float} {token : Token} :
    push values token = .ok next ↔ Push values token next := by
  constructor
  · intro hpush
    cases token with
    | number value =>
        simp only [push, Except.ok.injEq] at hpush
        subst hpush
        exact .number value
    | operator op =>
        simp only [push] at hpush
        split at hpush
        next right left others =>
          cases happly : op.apply left right with
          | error refusal => simp [happly, Except.map] at hpush
          | ok value =>
              simp only [happly, Except.map, Except.ok.injEq] at hpush
              subst hpush
              exact .operator happly
        next => simp at hpush
    | unknown text => simp [push] at hpush
    | leftParen => simp [push] at hpush
    | rightParen => simp [push] at hpush
  · intro hpush
    cases hpush with
    | number value => rfl
    | operator happly => simp [push, happly, Except.map]

theorem foldlM_push_cons_eq_ok_iff {values final : List Float} {token : Token}
    {tokens : List Token} :
    (token :: tokens).foldlM push values = .ok final ↔
      ∃ next, Push values token next ∧ tokens.foldlM push next = .ok final := by
  rw [List.foldlM_cons]
  cases hpush : push values token with
  | error refusal =>
      constructor
      · intro hfold
        cases hfold
      · rintro ⟨next, hnext, -⟩
        rw [push_eq_ok_iff.mpr hnext] at hpush
        cases hpush
  | ok next =>
      constructor
      · intro hfold
        exact ⟨next, push_eq_ok_iff.mp hpush, hfold⟩
      · rintro ⟨other, hother, hfold⟩
        rw [push_eq_ok_iff.mpr hother] at hpush
        cases hpush
        exact hfold

theorem evaluate_eq_ok_iff {tokens : List Token} {value : Float} :
    evaluate tokens = .ok value ↔ tokens.foldlM push [] = .ok [value] := by
  unfold evaluate
  cases hfold : tokens.foldlM push [] with
  | error refusal => simp [bind, Except.bind]
  | ok values =>
      simp only [bind, Except.bind, Except.ok.injEq]
      constructor
      · intro hresult
        unfold result at hresult
        split at hresult
        next only => rw [Except.ok.inj hresult]
        next => cases hresult
      · rintro rfl
        rfl

/-! ## Refused evaluations -/

/-- A token that is refused above these values, with its refusal. -/
inductive Refused : List Float → Token → Refusal → Prop
  | symbol {values : List Float} {token : Token} (hnumber : token.isNumber = false)
      (hoperator : token.isOperator = false) : Refused values token (.unknownSymbol token.text)
  | operands {values : List Float} (op : Operator) (hfew : values.length < 2) :
      Refused values (.operator op) (.insufficientOperands op)
  | zeroDivisor {left right : Float} {others : List Float}
      (hzero : Binary64.toInt64 right = 0) :
      Refused (right :: left :: others) (.operator .floorDivide) .integerDivisionByZero

theorem push_eq_error_iff {values : List Float} {token : Token} {refusal : Refusal} :
    push values token = .error refusal ↔ Refused values token refusal := by
  constructor
  · intro hpush
    cases token with
    | number value => cases hpush
    | unknown text =>
        cases hpush
        exact .symbol rfl rfl
    | leftParen =>
        cases hpush
        exact .symbol rfl rfl
    | rightParen =>
        cases hpush
        exact .symbol rfl rfl
    | operator op =>
        rcases values with - | ⟨right, - | ⟨left, others⟩⟩
        · cases hpush
          exact .operands op (by simp)
        · cases hpush
          exact .operands op (by simp)
        · cases happly : op.apply left right with
          | ok value => simp [push, happly, Except.map] at hpush
          | error other =>
              simp only [push, happly, Except.map, Except.error.injEq] at hpush
              rw [hpush] at happly
              obtain ⟨rfl, hzero, rfl⟩ := Operator.apply_eq_error_iff.mp happly
              exact .zeroDivisor hzero
  · intro hrefused
    cases hrefused with
    | symbol hnumber hoperator =>
        cases token with
        | number value => cases hnumber
        | operator op => cases hoperator
        | _ => rfl
    | operands op hfew =>
        rcases values with - | ⟨right, - | ⟨left, others⟩⟩
        · rfl
        · rfl
        · simp only [List.length_cons] at hfew
          omega
    | @zeroDivisor left right others hzero =>
        have hstop := Operator.apply_eq_error_iff (a := left).mpr ⟨rfl, hzero, rfl⟩
        simp [push, hstop, Except.map]

/-- An evaluation is refused at the first token that finds nothing to work on in the
values of those before it. -/
theorem foldlM_push_eq_error_iff {tokens : List Token} {values : List Float}
    {refusal : Refusal} :
    tokens.foldlM push values = .error refusal ↔
      ∃ before token after reached, tokens = before ++ token :: after ∧
        before.foldlM push values = .ok reached ∧ push reached token = .error refusal := by
  constructor
  · intro hfold
    induction tokens generalizing values with
    | nil => cases hfold
    | cons token tokens ih =>
        rw [List.foldlM_cons] at hfold
        cases hpush : push values token with
        | error other =>
            rw [hpush] at hfold
            have hother : other = refusal := Except.error.inj hfold
            rw [hother] at hpush
            exact ⟨[], token, tokens, values, rfl, rfl, hpush⟩
        | ok next =>
            rw [hpush] at hfold
            obtain ⟨before, other, after, reached, rfl, hbefore, hstop⟩ := ih hfold
            exact ⟨token :: before, other, after, reached, rfl,
              foldlM_push_cons_eq_ok_iff.mpr ⟨next, push_eq_ok_iff.mp hpush, hbefore⟩, hstop⟩
  · rintro ⟨before, token, after, reached, rfl, hbefore, hstop⟩
    rw [List.foldlM_append, hbefore]
    change ((token :: after).foldlM push reached) = _
    rw [List.foldlM_cons, hstop]
    rfl

theorem evaluate_eq_error_iff {tokens : List Token} {refusal : Refusal} :
    evaluate tokens = .error refusal ↔
      tokens.foldlM push [] = .error refusal ∨
        ∃ values, tokens.foldlM push [] = .ok values ∧ values.length ≠ 1 ∧
          refusal = .invalidExpression values.length := by
  unfold evaluate
  cases hfold : tokens.foldlM push [] with
  | error other => simp [bind, Except.bind]
  | ok values =>
      match values with
      | [] => simp [bind, Except.bind, result, eq_comm]
      | [value] => simp [bind, Except.bind, result]
      | _ :: _ :: _ => simp [bind, Except.bind, result, eq_comm]

/-! ## Values below the top -/

theorem Push.append {values next : List Float} {token : Token}
    (hpush : Push values token next) (base : List Float) :
    Push (values ++ base) token (next ++ base) := by
  cases hpush with
  | number value => exact .number value
  | operator happly => exact .operator happly

theorem foldlM_push_append {tokens : List Token} {values final : List Float}
    (hfold : tokens.foldlM push values = .ok final) (base : List Float) :
    tokens.foldlM push (values ++ base) = .ok (final ++ base) := by
  induction tokens generalizing values with
  | nil =>
      cases hfold
      rfl
  | cons token tokens ih =>
      obtain ⟨next, hpush, hrest⟩ := foldlM_push_cons_eq_ok_iff.mp hfold
      exact foldlM_push_cons_eq_ok_iff.mpr ⟨next ++ base, hpush.append base, ih hrest⟩

theorem foldlM_push_of_evaluate {tokens : List Token} {value : Float}
    (hvalue : evaluate tokens = .ok value) (values : List Float) :
    tokens.foldlM push values = .ok (value :: values) :=
  foldlM_push_append (evaluate_eq_ok_iff.mp hvalue) values

/-! ## Counting values -/

theorem Push.length_add {values next : List Float} {token : Token}
    (hpush : Push values token next) :
    next.length + [token].countP isOperator = values.length + [token].countP isNumber ∧
      token.isUnknown = false := by
  cases hpush with
  | number value => simp [isOperator, isNumber, isUnknown]
  | operator _ => simp [isOperator, isNumber, isUnknown]

theorem length_add_of_foldlM_push {tokens : List Token} {values final : List Float}
    (hfold : tokens.foldlM push values = .ok final) :
    final.length + tokens.countP isOperator = values.length + tokens.countP isNumber ∧
      tokens.countP isUnknown = 0 := by
  induction tokens generalizing values with
  | nil =>
      cases hfold
      simp
  | cons token tokens ih =>
      obtain ⟨next, hpush, hrest⟩ := foldlM_push_cons_eq_ok_iff.mp hfold
      obtain ⟨hcount, hunknown⟩ := ih hrest
      obtain ⟨hfirst, hknown⟩ := hpush.length_add
      have hsplit (p : Token → Bool) :
          (token :: tokens).countP p = [token].countP p + tokens.countP p := by
        rw [← List.singleton_append, List.countP_append]
      constructor
      · rw [hsplit isOperator, hsplit isNumber]
        omega
      · rw [hsplit isUnknown, hunknown]
        simp [hknown]

/-- A token never leaves the stack of values empty. -/
theorem eq_nil_of_foldlM_push_eq_nil {tokens : List Token} {values : List Float}
    (hfold : tokens.foldlM push values = .ok []) : tokens = [] ∧ values = [] := by
  induction tokens generalizing values with
  | nil => exact ⟨rfl, Except.ok.inj hfold⟩
  | cons token tokens ih =>
      obtain ⟨next, hpush, hrest⟩ := foldlM_push_cons_eq_ok_iff.mp hfold
      obtain ⟨-, rfl⟩ := ih hrest
      cases hpush

end Rpn
end InfixCalculator
