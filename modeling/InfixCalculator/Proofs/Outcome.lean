import InfixCalculator.Proofs.Acceptance
import InfixCalculator.Proofs.Arrangement
import InfixCalculator.Proofs.Lexing
import InfixCalculator.Proofs.Tree

/-!
# What an outcome says about the tokens

The conversion refuses an expression for its parentheses or for an operator
without a left operand, the evaluation for a token of its own or for the number
of values that it leaves.  As nothing but parentheses gets lost in between, every
outcome can be read as a statement about the tokens of the text.
-/

namespace InfixCalculator

open Token

/-- Everything that is asked of the order of the tokens before they are
evaluated. -/
structure WellArranged (tokens : List Token) : Prop where
  balanced : Balanced tokens
  operatorsFollow : OperatorsFollow tokens
  known : ∀ text, unknown text ∉ tokens

/-- The tokens account for a refusal: a single token is to blame, the parentheses
are, or the number of values that are left. -/
inductive AccountFor (tokens : List Token) : Refusal → Prop
  | unknown {text : String} (hmem : unknown text ∈ tokens) :
      AccountFor tokens (.unknownSymbol text)
  | operator {op : Operator} (hmem : operator op ∈ tokens) :
      AccountFor tokens (.insufficientOperands op)
  | floorDivide (hmem : operator .floorDivide ∈ tokens) :
      AccountFor tokens .integerDivisionByZero
  | parentheses (hparens : ¬Balanced tokens) :
      AccountFor tokens .unbalancedParentheses
  | remaining {n : Nat} (harranged : WellArranged tokens) (hne : n ≠ 1)
      (hcount : tokens.countP isNumber = tokens.countP isOperator + n)
      (hparens : n = 0 ↔ ∀ token ∈ tokens, token = leftParen ∨ token = rightParen) :
      AccountFor tokens (.invalidExpression n)

namespace Rpn

open Pending

theorem accountFor_of_push_eq_error {tokens : List Token} {values : List Float} {token : Token}
    {refusal : Refusal} (hpush : push values token = .error refusal) (hmem : token ∈ tokens)
    (hparen : token.isParen = false) : AccountFor tokens refusal := by
  cases push_eq_error_iff.mp hpush with
  | symbol hnumber hoperator =>
      cases token with
      | number value => cases hnumber
      | operator op => cases hoperator
      | leftParen => cases hparen
      | rightParen => cases hparen
      | unknown text => exact .unknown hmem
  | operands op _ => exact .operator hmem
  | zeroDivisor _ => exact .floorDivide hmem

theorem mem_of_mem_ofInfix {tokens output : List Token} {token : Token}
    (hconvert : ofInfix tokens = .ok output) (hmem : token ∈ output) : token ∈ tokens := by
  have hparen := isParen_eq_false_of_mem_ofInfix hconvert hmem
  have hcount : output.count token = tokens.count token := by
    apply countP_ofInfix hconvert (· == token)
    · cases token <;> simp_all [isParen]
    · cases token <;> simp_all [isParen]
  rw [← List.count_pos_iff] at hmem ⊢
  rwa [← hcount]

theorem accountFor_of_ofInfix {tokens : List Token} {refusal : Refusal}
    (hrefused : ofInfix tokens = .error refusal) : AccountFor tokens refusal := by
  rcases convert_eq_error_iff.mp hrefused with
    ⟨before, token, after, output, last, rfl, hruns, hstop⟩ | ⟨output, last, hruns, hopen, rfl⟩
  · rcases step_eq_error_iff.mp hstop with ⟨rfl, hclosed, rfl⟩ | ⟨op, rfl, -, rfl⟩
    · refine .parentheses ?_
      intro hbalanced
      -- The parenthesis that is refused closes one more than are open before it.
      have hprefix := hbalanced.count_le (before ++ [rightParen]) ⟨after, by simp⟩
      have hcount := hruns.count_leftParen_of_start
      rw [List.count_eq_zero.mpr hclosed] at hcount
      have hother : [rightParen].count leftParen = 0 := by simp
      rw [List.count_append, List.count_append, List.count_singleton_self, hother] at hprefix
      omega
    · exact .operator (by simp)
  · refine .parentheses ?_
    intro hbalanced
    exact hruns.balanced_iff.mp hbalanced hopen

/-- Values are left only of tokens that are well arranged, one for each number that is
not used up by an operator. -/
theorem wellArranged_of_foldlM_push {tokens output : List Token} {values : List Float}
    (hconvert : ofInfix tokens = .ok output) (hfold : output.foldlM push [] = .ok values) :
    WellArranged tokens ∧
      tokens.countP isNumber = tokens.countP isOperator + values.length ∧
        (values = [] ↔ ∀ token ∈ tokens, token = leftParen ∨ token = rightParen) := by
  obtain ⟨hcount, hknown⟩ := length_add_of_foldlM_push hfold
  rw [countP_ofInfix hconvert isOperator rfl rfl, countP_ofInfix hconvert isNumber rfl rfl,
    List.length_nil, Nat.zero_add] at hcount
  rw [countP_ofInfix hconvert isUnknown rfl rfl, List.countP_eq_zero] at hknown
  obtain ⟨released, last, hruns, hclosed, -⟩ := convert_eq_ok_iff.mp hconvert
  refine ⟨⟨hruns.balanced_iff.mpr hclosed, hruns.operatorsFollow, ?_⟩, by omega, ?_⟩
  · intro text hmem
    exact hknown _ hmem rfl
  · constructor
    · rintro rfl token hmem
      have hnone : tokens.countP (!isParen ·) = 0 := by
        rw [← countP_ofInfix hconvert _ rfl rfl, (eq_nil_of_foldlM_push_eq_nil hfold).1]
        rfl
      have hparen := List.countP_eq_zero.mp hnone token hmem
      cases token <;> simp [isParen] at hparen ⊢
    · intro hparens
      have hnone : tokens.countP isNumber = 0 := by
        apply List.countP_eq_zero.mpr
        intro token hmem
        rcases hparens token hmem with rfl | rfl <;> simp [isNumber]
      exact List.eq_nil_of_length_eq_zero (by omega)

end Rpn

theorem accountFor_of_evaluate_eq_error {text : String} {refusal : Refusal}
    (hrefused : evaluate text = .error refusal) : AccountFor (tokenize text) refusal := by
  unfold evaluate at hrefused
  cases hconvert : Rpn.ofInfix (tokenize text) with
  | error other =>
      rw [hconvert] at hrefused
      obtain rfl : other = refusal := Except.error.inj hrefused
      exact Rpn.accountFor_of_ofInfix hconvert
  | ok output =>
      rw [hconvert] at hrefused
      rcases Rpn.evaluate_eq_error_iff.mp hrefused with hfold | ⟨values, hfold, hne, rfl⟩
      · obtain ⟨before, token, after, reached, hsplit, -, hpush⟩ :=
          Rpn.foldlM_push_eq_error_iff.mp hfold
        have hmem : token ∈ output := by simp [hsplit]
        exact Rpn.accountFor_of_push_eq_error hpush (Rpn.mem_of_mem_ofInfix hconvert hmem)
          (Rpn.isParen_eq_false_of_mem_ofInfix hconvert hmem)
      · obtain ⟨harranged, hcount, hnil⟩ := Rpn.wellArranged_of_foldlM_push hconvert hfold
        rw [← List.length_eq_zero_iff] at hnil
        exact .remaining harranged hne hcount hnil

theorem wellArranged_of_evaluate_eq_ok {text : String} {value : Float}
    (hvalue : evaluate text = .ok value) :
    WellArranged (tokenize text) ∧
      (tokenize text).countP isNumber = (tokenize text).countP isOperator + 1 := by
  unfold evaluate at hvalue
  cases hconvert : Rpn.ofInfix (tokenize text) with
  | error refusal =>
      rw [hconvert] at hvalue
      cases hvalue
  | ok output =>
      rw [hconvert] at hvalue
      have hfold := Rpn.evaluate_eq_ok_iff.mp hvalue
      obtain ⟨harranged, hcount, -⟩ := Rpn.wellArranged_of_foldlM_push hconvert hfold
      exact ⟨harranged, hcount⟩

theorem not_symbol_of_unknown_mem_tokenize {text symbol : String}
    (hmem : unknown symbol ∈ tokenize text) :
    (∀ op : Operator, op.symbol ≠ symbol) ∧ symbol ≠ "(" ∧ symbol ≠ ")" := by
  obtain ⟨-, lexeme, -, -, hstands⟩ := exists_isLexeme_of_mem_tokenize hmem
  cases hstands with
  | unknown hleft hright _ hoperator =>
      refine ⟨?_, ?_, ?_⟩
      · intro op hop
        exact hoperator op (by rw [hop, String.toList_ofList])
      · intro hparen
        exact hleft (by rw [← String.toList_ofList (l := lexeme), hparen]; rfl)
      · intro hparen
        exact hright (by rw [← String.toList_ofList (l := lexeme), hparen]; rfl)

/-- What each outcome of an evaluation says about the tokens of the text. -/
theorem tokens_of_outcome (text : String) :
    (∀ value, evaluate text = .ok value →
      WellArranged (tokenize text) ∧
        (tokenize text).countP isNumber = (tokenize text).countP isOperator + 1) ∧
    (∀ remaining, evaluate text = .error (.invalidExpression remaining) →
      WellArranged (tokenize text) ∧ remaining ≠ 1 ∧
        (tokenize text).countP isNumber = (tokenize text).countP isOperator + remaining ∧
        (remaining = 0 ↔ ∀ token ∈ tokenize text, token = leftParen ∨ token = rightParen)) ∧
    (∀ symbol, evaluate text = .error (.unknownSymbol symbol) →
      unknown symbol ∈ tokenize text ∧
        (∀ op : Operator, op.symbol ≠ symbol) ∧ symbol ≠ "(" ∧ symbol ≠ ")") ∧
    (∀ op, evaluate text = .error (.insufficientOperands op) →
      operator op ∈ tokenize text) ∧
    (evaluate text = .error .integerDivisionByZero →
      operator .floorDivide ∈ tokenize text) ∧
    (evaluate text = .error .unbalancedParentheses → ¬Balanced (tokenize text)) ∧
    ∀ symbol, unknown symbol ∈ tokenize text →
      ∃ refusal, evaluate text = .error refusal ∧
        ∀ remaining, refusal ≠ .invalidExpression remaining := by
  refine ⟨fun value => wellArranged_of_evaluate_eq_ok, ?_, ?_, ?_, ?_, ?_, ?_⟩
  · intro remaining hrefused
    cases accountFor_of_evaluate_eq_error hrefused with
    | remaining harranged hne hcount hparens => exact ⟨harranged, hne, hcount, hparens⟩
  · intro symbol hrefused
    cases accountFor_of_evaluate_eq_error hrefused with
    | unknown hmem => exact ⟨hmem, not_symbol_of_unknown_mem_tokenize hmem⟩
  · intro op hrefused
    cases accountFor_of_evaluate_eq_error hrefused with
    | operator hmem => exact hmem
  · intro hrefused
    cases accountFor_of_evaluate_eq_error hrefused with
    | floorDivide hmem => exact hmem
  · intro hrefused
    cases accountFor_of_evaluate_eq_error hrefused with
    | parentheses hparens => exact hparens
  · intro symbol hmem
    cases houtcome : evaluate text with
    | ok value => exact absurd hmem ((wellArranged_of_evaluate_eq_ok houtcome).1.known symbol)
    | error refusal =>
        refine ⟨refusal, rfl, ?_⟩
        rintro remaining rfl
        cases accountFor_of_evaluate_eq_error houtcome with
        | remaining harranged _ _ _ => exact harranged.known symbol hmem

end InfixCalculator
