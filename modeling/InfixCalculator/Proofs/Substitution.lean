import InfixCalculator.Proofs.Conversion
import InfixCalculator.Proofs.Evaluation

/-!
# A group behaves as its value

An expression in parentheses can be replaced by the number that it has as its
value, whatever stands before and after it, malformed or not.  In the conversion
the postfix order of the group takes the place of the number; in the evaluation
both leave one value more on the stack.
-/

namespace InfixCalculator
namespace Rpn

open Pending Token

/-- A place for a value in a list of tokens: either nothing that stands there is
reached or converted, or its postfix order is put into a fixed context. -/
theorem convert_hole (before after : List Token) :
    (∃ refusal, ∀ middle released,
        (∀ stack afterValue, Runs ⟨stack, afterValue⟩ middle released ⟨stack, true⟩) →
          ofInfix (before ++ middle ++ after) = .error refusal) ∨
      ∃ left right, ∀ middle released,
        (∀ stack afterValue, Runs ⟨stack, afterValue⟩ middle released ⟨stack, true⟩) →
          ofInfix (before ++ middle ++ after) = .ok (left ++ released ++ right) := by
  rcases runs_or_convert_append_eq_error Pending.start before with
    ⟨left, last, hbefore⟩ | ⟨refusal, hrefused⟩
  · obtain ⟨stack, afterValue⟩ := last
    have hconvert (middle released : List Token)
        (hmiddle : ∀ stack afterValue,
          Runs ⟨stack, afterValue⟩ middle released ⟨stack, true⟩) :
        ofInfix (before ++ middle ++ after) =
          (convert ⟨stack, true⟩ after).map (left ++ released ++ ·) :=
      convert_append_of_runs (hbefore.append (hmiddle stack afterValue)) after
    cases hafter : convert ⟨stack, true⟩ after with
    | error refusal =>
        left
        refine ⟨refusal, ?_⟩
        intro middle released hmiddle
        rw [hconvert middle released hmiddle, hafter]
        rfl
    | ok right =>
        right
        refine ⟨left, right, ?_⟩
        intro middle released hmiddle
        rw [hconvert middle released hmiddle, hafter]
        rfl
  · -- The refusal comes before the place is reached.
    left
    refine ⟨refusal, ?_⟩
    intro middle released _
    rw [List.append_assoc]
    exact hrefused (middle ++ after)

theorem runs_number (value : Float) (stack : List Token) (afterValue : Bool) :
    Runs ⟨stack, afterValue⟩ [.number value] [.number value] ⟨stack, true⟩ :=
  Runs.singleton (.number value)

theorem evaluate_replace {tokens : List Token} {value : Float}
    (hvalue : evaluate tokens = .ok value) (left right : List Token) :
    evaluate (left ++ tokens ++ right) = evaluate (left ++ [.number value] ++ right) := by
  have hfold :
      (left ++ tokens ++ right).foldlM push [] =
        (left ++ [Token.number value] ++ right).foldlM push [] := by
    rw [List.foldlM_append, List.foldlM_append, List.foldlM_append, List.foldlM_append]
    congr 1
    cases left.foldlM push [] with
    | error refusal => rfl
    | ok values =>
        have htokens : tokens.foldlM push values = .ok (value :: values) :=
          foldlM_push_of_evaluate hvalue values
        simpa [bind, Except.bind, List.foldlM, push, pure, Except.pure] using htokens
  rw [evaluate, evaluate, hfold]

/-- A group in parentheses is converted and evaluated as a number would be in its
place. -/
theorem group_behaves_as_value (before tokens after : List Token) {output : List Token}
    (houtput : ofInfix tokens = .ok output) :
    ((∃ refusal,
          ofInfix (before ++ [leftParen] ++ tokens ++ [rightParen] ++ after) = .error refusal ∧
            ∀ x, ofInfix (before ++ [number x] ++ after) = .error refusal) ∨
        ∃ left right,
          (∀ x, ofInfix (before ++ [number x] ++ after) = .ok (left ++ [number x] ++ right)) ∧
            ofInfix (before ++ [leftParen] ++ tokens ++ [rightParen] ++ after) =
              .ok (left ++ output ++ right)) ∧
      ∀ value, evaluate output = .ok value →
        (ofInfix (before ++ [leftParen] ++ tokens ++ [rightParen] ++ after) >>= evaluate) =
          (ofInfix (before ++ [number value] ++ after) >>= evaluate) := by
  have hgroup :
      before ++ [leftParen] ++ tokens ++ [rightParen] ++ after =
        before ++ (leftParen :: tokens ++ [rightParen]) ++ after := by
    simp
  rw [hgroup]
  rcases convert_hole before after with ⟨refusal, hrefused⟩ | ⟨left, right, hconvert⟩
  · have hgroupRefused := hrefused _ _ (runs_group houtput)
    have hnumberRefused (x : Float) := hrefused _ _ (runs_number x)
    constructor
    · exact Or.inl ⟨refusal, hgroupRefused, hnumberRefused⟩
    · intro value _
      rw [hgroupRefused, hnumberRefused value]
  · have hgroupConvert := hconvert _ _ (runs_group houtput)
    have hnumberConvert (x : Float) := hconvert _ _ (runs_number x)
    constructor
    · exact Or.inr ⟨left, right, hnumberConvert, hgroupConvert⟩
    · intro value hvalue
      rw [hgroupConvert, hnumberConvert value]
      exact evaluate_replace hvalue left right

theorem group_behaves_as_value_sum :
    ofInfix [number 2, operator .plus, number 3] = .ok [number 2, number 3, operator .plus] ∧
      ((∃ refusal,
            ofInfix ([number 1] ++ [leftParen] ++ [number 2, operator .plus, number 3] ++
                [rightParen] ++ [operator .times]) = .error refusal ∧
              ∀ x, ofInfix ([number 1] ++ [number x] ++ [operator .times]) = .error refusal) ∨
          ∃ left right,
            (∀ x, ofInfix ([number 1] ++ [number x] ++ [operator .times]) =
                .ok (left ++ [number x] ++ right)) ∧
              ofInfix ([number 1] ++ [leftParen] ++ [number 2, operator .plus, number 3] ++
                  [rightParen] ++ [operator .times]) =
                .ok (left ++ [number 2, number 3, operator .plus] ++ right)) ∧
        ∀ value, evaluate [number 2, number 3, operator .plus] = .ok value →
          (ofInfix ([number 1] ++ [leftParen] ++ [number 2, operator .plus, number 3] ++
              [rightParen] ++ [operator .times]) >>= evaluate) =
            (ofInfix ([number 1] ++ [number value] ++ [operator .times]) >>= evaluate) := by
  have houtput : ofInfix [number 2, operator .plus, number 3] =
      .ok [number 2, number 3, operator .plus] := rfl
  exact ⟨houtput, group_behaves_as_value [number 1] [number 2, operator .plus, number 3]
    [operator .times] houtput⟩

end Rpn
end InfixCalculator
