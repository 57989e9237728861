import InfixCalculator.Proofs.Arrangement
import Mathlib.Data.List.Induction

/-!
# The first fault

Tokens are read from left to right, and a token can be at fault because of those
before it.  A reader that refuses exactly the tokens at fault reads the lists
without a fault to their end, and it stops at the first fault of any other.

The conversion is such a reader.  A closing parenthesis is misplaced where none
is open, and an operator where no value can end.  If no token is misplaced, only
a parenthesis that is never closed can still be refused.
-/

namespace InfixCalculator

/-! ## Faults by position -/

variable {fault : List Token → Token → Refusal → Prop}

/-- No token is at fault after those before it. -/
def Faultless (fault : List Token → Token → Refusal → Prop) (tokens : List Token) : Prop :=
  ∀ before token after, tokens = before ++ token :: after →
    ∀ refusal, ¬fault before token refusal

/-- The first token at fault is at fault with this refusal. -/
def FirstFault (fault : List Token → Token → Refusal → Prop) (tokens : List Token)
    (refusal : Refusal) : Prop :=
  ∃ before token after, tokens = before ++ token :: after ∧
    Faultless fault before ∧ fault before token refusal

theorem faultless_nil : Faultless fault [] := by
  intro before token after hsplit
  simp at hsplit

theorem faultless_concat {tokens : List Token} {token : Token} :
    Faultless fault (tokens ++ [token]) ↔
      Faultless fault tokens ∧ ∀ refusal, ¬fault tokens token refusal := by
  constructor
  · intro hwhole
    refine ⟨?_, hwhole tokens token [] rfl⟩
    intro before other after hsplit
    exact hwhole before other (after ++ [token]) (by rw [hsplit]; simp)
  · rintro ⟨htokens, htoken⟩ before other after hsplit
    cases after using List.reverseRecOn with
    | nil =>
        obtain ⟨rfl, hlast⟩ := List.append_inj' hsplit rfl
        obtain rfl : token = other := by simpa using hlast
        exact htoken
    | append_singleton after last =>
        rw [← List.cons_append, ← List.append_assoc] at hsplit
        exact htokens before other after (List.append_inj_left' hsplit rfl)

/-- A reader of tokens, by the states that it can reach with the tokens read and by
what it refuses in a state.  It goes on with every token that it does not refuse. -/
structure StopsAtFaults {State : Type} (reaches : List Token → State → Prop)
    (refuses : State → Token → Refusal → Prop)
    (fault : List Token → Token → Refusal → Prop) : Prop where
  start : ∃ state, reaches [] state
  goesOn_iff : ∀ tokens token, (∃ state, reaches (tokens ++ [token]) state) ↔
    ∃ state, reaches tokens state ∧ ∀ refusal, ¬refuses state token refusal
  refuses_iff : ∀ {tokens state}, reaches tokens state → ∀ {token refusal},
    refuses state token refusal ↔ fault tokens token refusal

namespace StopsAtFaults

variable {State : Type} {reaches : List Token → State → Prop}
  {refuses : State → Token → Refusal → Prop} (hreader : StopsAtFaults reaches refuses fault)

include hreader

theorem reaches_iff (tokens : List Token) :
    (∃ state, reaches tokens state) ↔ Faultless fault tokens := by
  induction tokens using List.reverseRecOn with
  | nil => exact iff_of_true hreader.start faultless_nil
  | append_singleton tokens token ih =>
      rw [hreader.goesOn_iff, faultless_concat, ← ih]
      constructor
      · rintro ⟨state, hreaches, hgoesOn⟩
        refine ⟨⟨state, hreaches⟩, fun refusal hfault => ?_⟩
        exact hgoesOn refusal ((hreader.refuses_iff hreaches).mpr hfault)
      · rintro ⟨⟨state, hreaches⟩, hclean⟩
        refine ⟨state, hreaches, fun refusal hrefuses => ?_⟩
        exact hclean refusal ((hreader.refuses_iff hreaches).mp hrefuses)

theorem firstFault_iff {tokens : List Token} {refusal : Refusal} :
    (∃ before token after state, tokens = before ++ token :: after ∧
      reaches before state ∧ refuses state token refusal) ↔
        FirstFault fault tokens refusal := by
  constructor
  · rintro ⟨before, token, after, state, hsplit, hreaches, hrefuses⟩
    exact ⟨before, token, after, hsplit, (hreader.reaches_iff before).mp ⟨state, hreaches⟩,
      (hreader.refuses_iff hreaches).mp hrefuses⟩
  · rintro ⟨before, token, after, hsplit, hbefore, hfault⟩
    obtain ⟨state, hreaches⟩ := (hreader.reaches_iff before).mpr hbefore
    exact ⟨before, token, after, state, hsplit, hreaches,
      (hreader.refuses_iff hreaches).mpr hfault⟩

end StopsAtFaults

/-! ## The conversion -/

open Token

/-- A token that a conversion refuses after those before it: a parenthesis that
closes none, or an operator without a value on its left. -/
inductive Misplaced (before : List Token) : Token → Refusal → Prop
  | close (hclosed : before.count leftParen ≤ before.count rightParen) :
      Misplaced before rightParen .unbalancedParentheses
  | operator (op : Operator)
      (hleft : before = [] ∨ ∃ last, before.getLast? = some last ∧
        (last = leftParen ∨ last.isOperator = true)) :
      Misplaced before (operator op) (.insufficientOperands op)

theorem endsValue_eq_false_iff {token : Token} :
    token.endsValue = false ↔ token = leftParen ∨ token.isOperator = true := by
  cases token <;> simp [endsValue, isOperator]

namespace Rpn
namespace Pending

theorem Runs.afterValue_eq_false_iff {last : Pending} {tokens output : List Token}
    (hruns : Runs .start tokens output last) :
    last.afterValue = false ↔
      tokens = [] ∨ ∃ token, tokens.getLast? = some token ∧
        (token = leftParen ∨ token.isOperator = true) := by
  rw [hruns.afterValue_eq]
  cases hlast : tokens.getLast? with
  | none => simp [start, List.getLast?_eq_none_iff.mp hlast]
  | some token =>
      have hne : tokens ≠ [] := by
        rintro rfl
        cases hlast
      simp [hne, endsValue_eq_false_iff]

/-- A parenthesis waits exactly when more are opened than closed. -/
theorem Runs.leftParen_mem_iff {last : Pending} {tokens output : List Token}
    (hruns : Runs .start tokens output last) :
    .leftParen ∈ last.stack ↔ tokens.count rightParen < tokens.count leftParen := by
  have hcount := hruns.count_leftParen_of_start
  rw [← List.count_pos_iff]
  omega

/-- A token is refused after a run exactly when it is misplaced. -/
theorem Runs.refuses_iff_misplaced {last : Pending} {before output : List Token}
    (hruns : Runs .start before output last) {token : Token} {refusal : Refusal} :
    last.step token = .error refusal ↔ Misplaced before token refusal := by
  rw [step_eq_error_iff, hruns.leftParen_mem_iff, Nat.not_lt, hruns.afterValue_eq_false_iff]
  constructor
  · rintro (⟨rfl, hclosed, rfl⟩ | ⟨op, rfl, hleft, rfl⟩)
    · exact .close hclosed
    · exact .operator op hleft
  · rintro (hclosed | ⟨op, hleft⟩)
    · exact Or.inl ⟨rfl, hclosed, rfl⟩
    · exact Or.inr ⟨op, rfl, hleft, rfl⟩

/-- What a run has released and what is pending then, as a reader of tokens. -/
theorem step_stopsAtFaults :
    StopsAtFaults (fun tokens (state : List Token × Pending) => Runs .start tokens state.1 state.2)
      (fun state token refusal => state.2.step token = .error refusal) Misplaced where
  start := ⟨([], .start), .nil⟩
  refuses_iff := Runs.refuses_iff_misplaced
  goesOn_iff := by
    intro tokens token
    constructor
    · rintro ⟨⟨output, last⟩, hruns⟩
      obtain ⟨middle, first, rest, -, hbefore, hlast⟩ := hruns.exists_append
      refine ⟨(first, middle), hbefore, ?_⟩
      cases hlast with
      | cons hstep _ => simp [step_eq_ok_iff.mpr hstep]
    · rintro ⟨⟨output, last⟩, hruns, hgoesOn⟩
      cases hstep : last.step token with
      | error refusal => exact absurd hstep (hgoesOn refusal)
      | ok result =>
          obtain ⟨released, next⟩ := result
          refine ⟨(output ++ released, next), ?_⟩
          exact hruns.append (Runs.singleton (step_eq_ok_iff.mp hstep))

end Pending

open Pending

/-- A conversion is refused for the first misplaced token, or else for a parenthesis
that is never closed, and in no other case. -/
theorem ofInfix_outcome (tokens : List Token) :
    (∀ refusal, ofInfix tokens = .error refusal ↔
      FirstFault Misplaced tokens refusal ∨
        (Faultless Misplaced tokens ∧ tokens.count rightParen < tokens.count leftParen ∧
          refusal = .unbalancedParentheses)) ∧
    ((∃ output, ofInfix tokens = .ok output) ↔
      Faultless Misplaced tokens ∧ tokens.count leftParen ≤ tokens.count rightParen) := by
  have hfaultless :
      (∃ output last, Runs .start tokens output last) ↔ Faultless Misplaced tokens := by
    rw [← step_stopsAtFaults.reaches_iff, Prod.exists]
  constructor
  · intro refusal
    rw [ofInfix, convert_eq_error_iff]
    apply or_congr
    · rw [← step_stopsAtFaults.firstFault_iff]
      simp only [Prod.exists]
    · constructor
      · rintro ⟨output, last, hruns, hopen, rfl⟩
        exact ⟨hfaultless.mp ⟨_, _, hruns⟩, hruns.leftParen_mem_iff.mp hopen, rfl⟩
      · rintro ⟨hclean, hopen, rfl⟩
        obtain ⟨output, last, hruns⟩ := hfaultless.mpr hclean
        exact ⟨output, last, hruns, hruns.leftParen_mem_iff.mpr hopen, rfl⟩
  · constructor
    · rintro ⟨output, hconvert⟩
      obtain ⟨released, last, hruns, hclosed, -⟩ := convert_eq_ok_iff.mp hconvert
      rw [hruns.leftParen_mem_iff, Nat.not_lt] at hclosed
      exact ⟨hfaultless.mp ⟨_, _, hruns⟩, hclosed⟩
    · rintro ⟨hclean, hclosed⟩
      obtain ⟨released, last, hruns⟩ := hfaultless.mpr hclean
      rw [← Nat.not_lt, ← hruns.leftParen_mem_iff] at hclosed
      exact ⟨_, convert_eq_ok_iff.mpr ⟨released, last, hruns, hclosed, rfl⟩⟩

end Rpn
end InfixCalculator
