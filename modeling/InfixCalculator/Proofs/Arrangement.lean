import InfixCalculator.Proofs.Conversion
import InfixCalculator.Proofs.Evaluation

/-!
# What the conversion lets through

The opening parentheses that wait are those still open, and the flag tells
whether the last token can end a value.  From these two invariants a converted
list of tokens has balanced parentheses and no operator without something on its
left; nothing else is asked of it.
-/

namespace InfixCalculator

namespace Token

def isParen : Token → Bool
  | leftParen | rightParen => true
  | _ => false

/-- Whether an operator can come right after the token. -/
def endsValue : Token → Bool
  | number _ | unknown _ | rightParen => true
  | _ => false

end Token

open Token

/-- No parenthesis is closed before it is opened, and all that are opened are
closed. -/
structure Balanced (tokens : List Token) : Prop where
  count_eq : tokens.count rightParen = tokens.count leftParen
  count_le : ∀ before, before <+: tokens → before.count rightParen ≤ before.count leftParen

/-- No operator comes first, right after an opening parenthesis or right after an
operator. -/
def OperatorsFollow (tokens : List Token) : Prop :=
  ∀ before op after, tokens = before ++ operator op :: after →
    ∃ token, before.getLast? = some token ∧ token ≠ leftParen ∧ token.isOperator = false

theorem endsValue_eq_true_iff {token : Token} :
    token.endsValue = true ↔ token ≠ leftParen ∧ token.isOperator = false := by
  cases token <;> simp [endsValue, isOperator]

namespace Rpn
namespace Pending

/-! ## The parentheses that are open -/

theorem Step.count_leftParen {pending next : Pending} {token : Token} {released : List Token}
    (hstep : Step pending token released next) :
    next.stack.count .leftParen + [token].count .rightParen =
      pending.stack.count .leftParen + [token].count .leftParen := by
  have hreleased {precedence : Nat} (hyields : ∀ token ∈ released,
      yieldsTo precedence token = true) : released.count .leftParen = 0 :=
    List.count_eq_zero.mpr (leftParen_notMem_of_yieldsTo hyields)
  cases hstep with
  | number value => simp
  | leftParen => simp
  | rightParen hwaiting => simp [List.count_eq_zero.mpr hwaiting]
  | operator op hyields _ => simp [hreleased hyields]
  | unknown text hyields _ => simp [hreleased hyields]

theorem Runs.count_leftParen {pending last : Pending} {tokens output : List Token}
    (hruns : Runs pending tokens output last) :
    last.stack.count .leftParen + tokens.count .rightParen =
      pending.stack.count .leftParen + tokens.count .leftParen := by
  induction hruns with
  | nil => simp
  | @cons pending next last token tokens released output hstep _ ih =>
      have hfirst := hstep.count_leftParen
      rw [← List.singleton_append, List.count_append, List.count_append]
      omega

theorem Runs.count_leftParen_of_start {last : Pending} {tokens output : List Token}
    (hruns : Runs .start tokens output last) :
    last.stack.count .leftParen + tokens.count .rightParen = tokens.count .leftParen := by
  simpa [start] using hruns.count_leftParen

theorem Runs.balanced_iff {last : Pending} {tokens output : List Token}
    (hruns : Runs .start tokens output last) :
    Balanced tokens ↔ .leftParen ∉ last.stack := by
  have hcount := hruns.count_leftParen_of_start
  rw [← List.count_eq_zero]
  constructor
  · intro hbalanced
    have heq := hbalanced.count_eq
    omega
  · intro hclosed
    refine ⟨by omega, ?_⟩
    rintro before ⟨after, rfl⟩
    obtain ⟨middle, first, rest, -, hbefore, -⟩ := hruns.exists_append
    have hprefix := hbefore.count_leftParen_of_start
    omega

/-! ## The token before an operator -/

theorem Step.afterValue_eq {pending next : Pending} {token : Token} {released : List Token}
    (hstep : Step pending token released next) : next.afterValue = token.endsValue := by
  cases hstep <;> rfl

theorem Runs.afterValue_eq {pending last : Pending} {tokens output : List Token}
    (hruns : Runs pending tokens output last) :
    last.afterValue = (tokens.getLast?.map endsValue).getD pending.afterValue := by
  induction hruns with
  | nil => rfl
  | @cons pending next last token tokens released output hstep _ ih =>
      rw [ih, hstep.afterValue_eq, List.getLast?_cons]
      cases tokens.getLast? <;> rfl

theorem Runs.operatorsFollow {last : Pending} {tokens output : List Token}
    (hruns : Runs .start tokens output last) : OperatorsFollow tokens := by
  rintro before op after rfl
  obtain ⟨middle, first, rest, -, hbefore, hafter⟩ := hruns.exists_append
  have hvalue : middle.afterValue = true := by
    cases hafter with
    | cons hstep _ =>
        cases hstep with
        | operator => rfl
  rw [hbefore.afterValue_eq] at hvalue
  cases hlast : before.getLast? with
  | none => simp [hlast, start] at hvalue
  | some token =>
      refine ⟨token, rfl, endsValue_eq_true_iff.mp ?_⟩
      simpa [hlast] using hvalue

/-! ## No parenthesis is released -/

theorem Step.isParen_eq_false {pending next : Pending} {token : Token} {released : List Token}
    (hstep : Step pending token released next) (hstack : .rightParen ∉ pending.stack) :
    (∀ out ∈ released, out.isParen = false) ∧ .rightParen ∉ next.stack := by
  have hneither {tokens : List Token} (hleft : .leftParen ∉ tokens)
      (hright : .rightParen ∉ tokens) : ∀ out ∈ tokens, out.isParen = false := by
    intro out hout
    cases out with
    | leftParen => exact absurd hout hleft
    | rightParen => exact absurd hout hright
    | _ => rfl
  cases hstep with
  | number value => exact ⟨by simp [isParen], hstack⟩
  | leftParen => exact ⟨by simp, by simpa using hstack⟩
  | rightParen hwaiting =>
      simp only [List.mem_append, List.mem_cons, reduceCtorEq, false_or, not_or] at hstack
      exact ⟨hneither hwaiting hstack.1, hstack.2⟩
  | operator op hyields _ =>
      rw [List.mem_append, not_or] at hstack
      exact ⟨hneither (leftParen_notMem_of_yieldsTo hyields) hstack.1, by simpa using hstack.2⟩
  | unknown text hyields _ =>
      rw [List.mem_append, not_or] at hstack
      exact ⟨hneither (leftParen_notMem_of_yieldsTo hyields) hstack.1, by simpa using hstack.2⟩

theorem Runs.isParen_eq_false {pending last : Pending} {tokens output : List Token}
    (hruns : Runs pending tokens output last) (hstack : .rightParen ∉ pending.stack) :
    (∀ out ∈ output, out.isParen = false) ∧ .rightParen ∉ last.stack := by
  induction hruns with
  | nil => exact ⟨by simp, hstack⟩
  | cons hstep _ ih =>
      obtain ⟨hreleased, hnext⟩ := hstep.isParen_eq_false hstack
      obtain ⟨houtput, hlast⟩ := ih hnext
      refine ⟨?_, hlast⟩
      intro out hout
      rcases List.mem_append.mp hout with hfirst | hrest
      · exact hreleased out hfirst
      · exact houtput out hrest

end Pending

open Pending

theorem isParen_eq_false_of_mem_ofInfix {tokens output : List Token} {token : Token}
    (hconvert : ofInfix tokens = .ok output) (hmem : token ∈ output) :
    token.isParen = false := by
  obtain ⟨released, last, hruns, hclosed, rfl⟩ := convert_eq_ok_iff.mp hconvert
  obtain ⟨hreleased, hright⟩ := hruns.isParen_eq_false (by simp [start])
  rcases List.mem_append.mp hmem with hfirst | hlast
  · exact hreleased token hfirst
  · cases token with
    | leftParen => exact absurd hlast hclosed
    | rightParen => exact absurd hlast hright
    | _ => rfl

end Rpn
end InfixCalculator
