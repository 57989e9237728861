import InfixCalculator.Proofs.FirstFault
import InfixCalculator.Proofs.Tree

/-!
# What an evaluation leaves of any tokens

As long as no token is refused, the tokens read so far are the postorders of trees,
one after the other, and the stack holds the values of these trees.  So it is known
from the tokens alone how many values there are, and which tree an operator finds
as its right operand.

From this the outcome of an evaluation is read off the tokens, malformed or not.
It is the refusal of the first token that cannot be worked off; without one, the
value of the only tree, or the number of trees if there is not exactly one.
-/

namespace InfixCalculator

open Token

/-- Postorders of trees one after the other, and the values of the trees, that of
the last one first. -/
inductive Forest : List Token → List Float → Prop
  | nil : Forest [] []
  | tree {tokens : List Token} {values : List Float} {value : Float} (tree : Tree)
      (hrest : Forest tokens values) (hvalue : tree.value = .ok value) :
      Forest (tokens ++ tree.postorder) (value :: values)

/-- A token that an evaluation refuses after those before it: one that is no number
and no operator, an operator for which fewer than two values are left, or an integer
division whose right operand has the whole part zero. -/
inductive Unworkable (before : List Token) : Token → Refusal → Prop
  | symbol {token : Token} (hsymbol : token.isUnknown = true ∨ token.isParen = true) :
      Unworkable before token (.unknownSymbol token.text)
  | operands (op : Operator)
      (hcount : before.countP isNumber < before.countP isOperator + 2) :
      Unworkable before (operator op) (.insufficientOperands op)
  | zeroDivisor {first : List Token} {divisor : Tree} {value : Float}
      (hcount : before.countP isOperator + 2 ≤ before.countP isNumber)
      (hdivisor : before = first ++ divisor.postorder) (hvalue : divisor.value = .ok value)
      (hzero : Binary64.toInt64 value = 0) :
      Unworkable before (operator .floorDivide) .integerDivisionByZero

/-- A tree whose postorder stands last has its value on top. -/
theorem Forest.top_eq {first : List Token} {tree : Tree} {value top : Float}
    {values : List Float} (hforest : Forest (first ++ tree.postorder) (top :: values))
    (hvalue : tree.value = .ok value) : top = value := by
  -- No other tree can stand last: its postorder would end elsewhere.
  generalize hwhole : first ++ tree.postorder = whole at hforest
  cases hforest with
  | tree last _ hlast =>
      obtain ⟨-, rfl⟩ := Tree.append_postorder_inj hwhole
      exact Except.ok.inj (hlast.symm.trans hvalue)

namespace Rpn

theorem Push.forest {values next : List Float} {token : Token} {tokens : List Token}
    (hpush : Push values token next) (hforest : Forest tokens values) :
    Forest (tokens ++ [token]) next := by
  cases hpush with
  | number value => exact .tree (.leaf value) hforest rfl
  | @operator b a value others op happly =>
      cases hforest with
      | tree right hforest hright =>
          cases hforest with
          | @tree first _ _ left hforest hleft =>
              have hvalue : (Tree.node op left right).value = .ok value := by
                rw [Tree.value_node, hleft, hright]
                exact happly
              have hwhole := Forest.tree _ hforest hvalue
              rw [Tree.postorder] at hwhole
              simpa using hwhole

theorem forest_of_foldlM_push {tokens read : List Token} {values final : List Float}
    (hforest : Forest read values) (hfold : tokens.foldlM push values = .ok final) :
    Forest (read ++ tokens) final := by
  induction tokens generalizing read values with
  | nil =>
      cases hfold
      simpa using hforest
  | cons token tokens ih =>
      obtain ⟨next, hpush, hrest⟩ := foldlM_push_cons_eq_ok_iff.mp hfold
      simpa using ih (hpush.forest hforest) hrest

theorem countP_isNumber_of_foldlM_push {tokens : List Token} {values : List Float}
    (hfold : tokens.foldlM push [] = .ok values) :
    tokens.countP isNumber = tokens.countP isOperator + values.length := by
  obtain ⟨hcount, -⟩ := length_add_of_foldlM_push hfold
  rw [List.length_nil] at hcount
  omega

/-- Above the values of the tokens before it, a token is refused exactly when it is
unworkable. -/
theorem refused_iff_unworkable {before : List Token} {values : List Float}
    (hfold : before.foldlM push [] = .ok values) {token : Token} {refusal : Refusal} :
    Refused values token refusal ↔ Unworkable before token refusal := by
  have hforest : Forest before values := forest_of_foldlM_push .nil hfold
  have hcount := countP_isNumber_of_foldlM_push hfold
  constructor
  · intro hrefused
    cases hrefused with
    | symbol hnumber hoperator =>
        refine .symbol ?_
        cases token <;> simp_all [isNumber, isOperator, isUnknown, isParen]
    | operands op hfew => exact .operands op (by omega)
    | zeroDivisor hzero =>
        simp only [List.length_cons] at hcount
        cases hforest with
        | tree divisor _ hdivisor => exact .zeroDivisor (by omega) rfl hdivisor hzero
  · intro hunworkable
    cases hunworkable with
    | symbol hsymbol =>
        refine .symbol ?_ ?_ <;>
          cases token <;> simp_all [isNumber, isOperator, isUnknown, isParen]
    | operands op hfew => exact .operands op (by omega)
    | zeroDivisor henough hdivisor hvalue hzero =>
        rcases values with - | ⟨right, - | ⟨left, others⟩⟩
        · rw [List.length_nil] at hcount
          omega
        · rw [List.length_singleton] at hcount
          omega
        · rw [hdivisor] at hforest
          rw [← hforest.top_eq hvalue] at hzero
          exact .zeroDivisor hzero

theorem foldlM_push_concat (tokens : List Token) (token : Token) :
    (tokens ++ [token]).foldlM push [] = (tokens.foldlM push []).bind (push · token) := by
  rw [List.foldlM_append]
  cases tokens.foldlM push [] with
  | error refusal => rfl
  | ok values => exact bind_pure (push values token)

/-- The values that are left, as a reader of tokens. -/
theorem push_stopsAtFaults :
    StopsAtFaults (fun tokens values => tokens.foldlM push [] = .ok values)
      (fun values token refusal => push values token = .error refusal) Unworkable where
  start := ⟨[], rfl⟩
  refuses_iff := fun hfold => push_eq_error_iff.trans (refused_iff_unworkable hfold)
  goesOn_iff := by
    intro tokens token
    rw [foldlM_push_concat]
    cases tokens.foldlM push [] with
    | error refusal => simp [Except.bind]
    | ok values =>
        simp only [Except.bind, Except.ok.injEq, exists_eq_left']
        cases push values token <;> simp

/-- The outcome for any tokens.  It is the refusal of the first token that cannot be
worked off.  Without one it is the value of the only tree that has these tokens as its
postorder, provided there is exactly one number more than there are operators, and the
surplus of numbers is reported otherwise. -/
theorem evaluate_outcome (rpn : List Token) :
    (∀ refusal, evaluate rpn = .error refusal ↔
      FirstFault Unworkable rpn refusal ∨
        (Faultless Unworkable rpn ∧ ∃ remaining, remaining ≠ 1 ∧
          rpn.countP isNumber = rpn.countP isOperator + remaining ∧
          refusal = .invalidExpression remaining)) ∧
    ((∃ value, evaluate rpn = .ok value) ↔
      Faultless Unworkable rpn ∧ rpn.countP isNumber = rpn.countP isOperator + 1) ∧
    ∀ value, evaluate rpn = .ok value →
      ∃ tree : Tree, tree.value = .ok value ∧
        ∀ other : Tree, other.postorder = rpn ↔ other = tree := by
  have hfaultless := push_stopsAtFaults.reaches_iff rpn
  refine ⟨fun refusal => ?_, ?_, fun value hvalue => ?_⟩
  · rw [evaluate_eq_error_iff, foldlM_push_eq_error_iff, push_stopsAtFaults.firstFault_iff]
    refine or_congr Iff.rfl ⟨?_, ?_⟩
    · rintro ⟨values, hfold, hne, rfl⟩
      exact ⟨hfaultless.mp ⟨values, hfold⟩, values.length, hne,
        countP_isNumber_of_foldlM_push hfold, rfl⟩
    · rintro ⟨hclean, remaining, hne, hsurplus, rfl⟩
      obtain ⟨values, hfold⟩ := hfaultless.mpr hclean
      obtain rfl : values.length = remaining := by
        have := countP_isNumber_of_foldlM_push hfold
        omega
      exact ⟨values, hfold, hne, rfl⟩
  · constructor
    · rintro ⟨value, hvalue⟩
      have hfold := evaluate_eq_ok_iff.mp hvalue
      exact ⟨hfaultless.mp ⟨[value], hfold⟩, countP_isNumber_of_foldlM_push hfold⟩
    · rintro ⟨hclean, hsurplus⟩
      obtain ⟨values, hfold⟩ := hfaultless.mpr hclean
      have hone : values.length = 1 := by
        have := countP_isNumber_of_foldlM_push hfold
        omega
      obtain ⟨value, rfl⟩ := List.length_eq_one_iff.mp hone
      exact ⟨value, evaluate_eq_ok_iff.mpr hfold⟩
  · have hforest : Forest rpn [value] :=
      forest_of_foldlM_push .nil (evaluate_eq_ok_iff.mp hvalue)
    cases hforest with
    | tree tree hrest htree =>
        cases hrest with
        | nil =>
            refine ⟨tree, htree, fun other => ⟨fun hother => ?_, fun hother => ?_⟩⟩
            · exact Tree.postorder_injective hother
            · rw [hother, List.nil_append]

end Rpn
end InfixCalculator
