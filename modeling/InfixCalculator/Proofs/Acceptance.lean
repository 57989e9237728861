import InfixCalculator.Calculation
import InfixCalculator.Proofs.Conversion
import InfixCalculator.Proofs.Evaluation
import InfixCalculator.Proofs.Infix

/-!
# Which accepted expressions are infix

The conversion asks for a value before every operator, but not for one before
the end of a group.  What is missing there is left to the count of values after
the evaluation, which an operand too many can make up for: `1 2 +` has a value.

The main result says that nothing else goes wrong.  An expression with a value is
one of the infix grammar exactly when its groups and the expression itself end
with an operand.
-/

namespace InfixCalculator

open Token

/-- Every group, and the whole expression, ends right after an operand. -/
structure ClosesAfterOperands (tokens : List Token) : Prop where
  whole : EndsOperand tokens
  groups : ∀ before after, tokens = before ++ .rightParen :: after → EndsOperand before

/-! ## Infix expressions end with operands -/

/-- The groups that end within `tokens` end right after an operand, when `before`
comes before them. -/
def GroupsClose (before tokens : List Token) : Prop :=
  ∀ middle after, tokens = middle ++ .rightParen :: after → EndsOperand (before ++ middle)

theorem groupsClose_append {before first second : List Token}
    (hfirst : GroupsClose before first) (hsecond : GroupsClose (before ++ first) second) :
    GroupsClose before (first ++ second) := by
  intro middle after hsplit
  rcases List.append_eq_append_iff.mp hsplit with ⟨more, hmiddle, hrest⟩ | ⟨more, hleft, hrest⟩
  · rw [hmiddle, ← List.append_assoc]
    exact hsecond more after hrest
  · cases more with
    | nil =>
        have hmiddle : first = middle := by simpa using hleft
        have hnone := hsecond [] after (by simpa using hrest.symm)
        simpa [hmiddle] using hnone
    | cons token more =>
        have htoken : Token.rightParen = token := by
          simpa using congrArg List.head? hrest
        exact hfirst middle more (by rw [hleft, htoken])

theorem groupsClose_cons {before tokens : List Token} {token : Token}
    (htoken : token = .rightParen → EndsOperand before)
    (htokens : GroupsClose (before ++ [token]) tokens) :
    GroupsClose before (token :: tokens) := by
  intro middle after hsplit
  cases middle with
  | nil =>
      have hright : token = .rightParen := by
        simpa using congrArg List.head? hsplit
      rw [List.append_nil]
      exact htoken hright
  | cons first middle =>
      rw [List.cons_append, List.cons.injEq] at hsplit
      have hrest := htokens middle after hsplit.2
      rwa [hsplit.1, List.append_assoc, List.singleton_append] at hrest

theorem groupsClose_nil (before : List Token) : GroupsClose before [] := by
  intro middle after hsplit
  simp at hsplit

mutual

theorem Infix.groupsClose (value : α → Float) (before : List Token) :
    ∀ expression : Infix α, GroupsClose before (expression.tokens value)
  | .operand atom => atom.groupsClose value before
  | .chain left op right => by
      apply groupsClose_append (left.groupsClose value before)
      apply groupsClose_cons (by simp)
      exact right.groupsClose value _

theorem Operand.groupsClose (value : α → Float) (before : List Token) :
    ∀ atom : Operand α, GroupsClose before (atom.tokens value)
  | .leaf x => groupsClose_cons (by simp) (groupsClose_nil _)
  | .group inner => by
      apply groupsClose_cons (by simp)
      apply groupsClose_append (inner.groupsClose value _)
      apply groupsClose_cons _ (groupsClose_nil _)
      intro _
      exact endsOperand_append (inner.endsOperand_tokens value)

end

theorem Infix.closesAfterOperands (value : α → Float) (expression : Infix α) :
    ClosesAfterOperands (expression.tokens value) where
  whole := expression.endsOperand_tokens value
  groups := expression.groupsClose value []

/-! ## Operands side by side -/

/-- An expression in which operands may also stand side by side, with the number
of values that it leaves. -/
inductive Loose : Nat → List Token → Prop
  | number (x : Float) : Loose 1 [.number x]
  | group {n : Nat} {tokens : List Token} (htokens : Loose n tokens) :
      Loose n (.leftParen :: tokens ++ [.rightParen])
  | operator {m n : Nat} {left right : List Token} (op : Operator)
      (hleft : Loose m left) (hright : Loose n right) :
      Loose (m + n - 1) (left ++ .operator op :: right)
  | juxtaposed {m n : Nat} {left right : List Token}
      (hleft : Loose m left) (hright : Loose n right) :
      Loose (m + n) (left ++ right)

theorem Loose.one_le {n : Nat} {tokens : List Token} (htokens : Loose n tokens) : 1 ≤ n := by
  induction htokens with
  | number x => exact le_refl 1
  | group _ ih => exact ih
  | operator op _ _ ihleft ihright => omega
  | juxtaposed _ _ ihleft ihright => omega

theorem Loose.countP_isNumber {n : Nat} {tokens : List Token} (htokens : Loose n tokens) :
    tokens.countP isNumber = tokens.countP isOperator + n := by
  induction htokens with
  | number x => rfl
  | group _ ih =>
      simp only [List.countP_append, List.countP_cons, List.countP_nil]
      simpa [isNumber, isOperator] using ih
  | operator op hleft hright ihleft ihright =>
      have hm := hleft.one_le
      simp only [List.countP_append, List.countP_cons]
      simp only [isNumber, isOperator, if_true, Bool.false_eq_true, if_false]
      omega
  | juxtaposed _ _ ihleft ihright =>
      simp only [List.countP_append]
      omega

theorem Loose.exists_infix {n : Nat} {tokens : List Token} (htokens : Loose n tokens)
    (hone : n = 1) : ∃ expression : Infix Float, tokens = expression.tokens id := by
  induction htokens with
  | number x => exact ⟨.operand (.leaf x), rfl⟩
  | group _ ih =>
      obtain ⟨inner, rfl⟩ := ih hone
      exact ⟨.operand (.group inner), rfl⟩
  | operator op hleft hright ihleft ihright =>
      have hm := hleft.one_le
      have hn := hright.one_le
      obtain ⟨left, rfl⟩ := ihleft (by omega)
      obtain ⟨right, rfl⟩ := ihright (by omega)
      exact ⟨left.join op right, (Infix.tokens_join id left op right).symm⟩
  | juxtaposed hleft hright _ _ =>
      have hm := hleft.one_le
      have hn := hright.one_le
      omega

/-! ## What a conversion has read -/

/-- What is read of a group that is still open. -/
inductive Content : List Token → Prop
  | empty : Content []
  | operands {n : Nat} {tokens : List Token} (htokens : Loose n tokens) : Content tokens
  | operator {n : Nat} {tokens : List Token} (op : Operator) (htokens : Loose n tokens) :
      Content (tokens ++ [.operator op])

/-- Tokens up to and including the last parenthesis that is still open, and the
number of those that are. -/
inductive Opened : Nat → List Token → Prop
  | start : Opened 0 []
  | group {depth : Nat} {opened content : List Token}
      (hopened : Opened depth opened) (hcontent : Content content) :
      Opened (depth + 1) (opened ++ content ++ [.leftParen])

theorem Content.append {content tokens : List Token} {n : Nat}
    (hcontent : Content content) (htokens : Loose n tokens) :
    Content (content ++ tokens) := by
  cases hcontent with
  | empty => exact .operands htokens
  | operands hoperands => exact .operands (hoperands.juxtaposed htokens)
  | operator op hoperands =>
      rw [List.append_assoc, List.singleton_append]
      exact .operands (.operator op hoperands htokens)

/-- If an operand is complete, it belongs to the innermost open group. -/
theorem Opened.exists_loose {depth : Nat} {opened content : List Token}
    (hopened : Opened depth opened) (hcontent : Content content)
    (hend : EndsOperand (opened ++ content)) :
    ∃ n, Loose n content := by
  cases hcontent with
  | empty =>
      rw [List.append_nil] at hend
      cases hopened with
      | start => simp [EndsOperand] at hend
      | group _ _ =>
          rw [endsOperand_concat] at hend
          simp [endsOperand] at hend
  | operands htokens => exact ⟨_, htokens⟩
  | operator op _ =>
      rw [← List.append_assoc, endsOperand_concat] at hend
      simp [endsOperand] at hend

/-- The tokens that a conversion has read, as far as its state tells. -/
structure HasRead (pending : Rpn.Pending) (tokens : List Token) : Prop where
  split : ∃ opened content, tokens = opened ++ content ∧
    Opened (pending.stack.count .leftParen) opened ∧ Content content
  endsOperand : pending.afterValue = true → EndsOperand tokens

theorem HasRead.start : HasRead Rpn.Pending.start [] where
  split := ⟨[], [], rfl, .start, .empty⟩
  endsOperand := by simp [Rpn.Pending.start]

theorem HasRead.exists_loose {pending : Rpn.Pending} {tokens : List Token}
    (hread : HasRead pending tokens) (hend : EndsOperand tokens) :
    ∃ n opened content, tokens = opened ++ content ∧
      Opened (pending.stack.count .leftParen) opened ∧ Loose n content := by
  obtain ⟨opened, content, rfl, hopened, hcontent⟩ := hread.split
  obtain ⟨n, hloose⟩ := hopened.exists_loose hcontent hend
  exact ⟨n, opened, content, rfl, hopened, hloose⟩

theorem count_leftParen_eq_zero_of_yieldsTo {released : List Token} {precedence : Nat}
    (hreleased : ∀ token ∈ released, Rpn.yieldsTo precedence token = true) :
    released.count .leftParen = 0 :=
  List.count_eq_zero.mpr (Rpn.Pending.leftParen_notMem_of_yieldsTo hreleased)

/-- One step reads one token more, unless it ends a group without an operand. -/
theorem HasRead.step {pending next : Rpn.Pending} {tokens released : List Token}
    {token : Token} (hread : HasRead pending tokens)
    (hstep : Rpn.Pending.Step pending token released next)
    (hclose : token = .rightParen → EndsOperand tokens)
    (hknown : token.isUnknown = false) :
    HasRead next (tokens ++ [token]) := by
  cases hstep with
  | @number stack _ value =>
      obtain ⟨opened, content, rfl, hopened, hcontent⟩ := hread.split
      refine ⟨⟨opened, content ++ [.number value], ?_, hopened, ?_⟩, ?_⟩
      · rw [List.append_assoc]
      · exact hcontent.append (.number value)
      · intro _
        rw [endsOperand_concat]
        rfl
  | leftParen =>
      obtain ⟨opened, content, rfl, hopened, hcontent⟩ := hread.split
      refine ⟨⟨opened ++ content ++ [.leftParen], [], ?_, ?_, .empty⟩, ?_⟩
      · rw [List.append_nil]
      · rw [List.count_cons_self]
        exact .group hopened hcontent
      · simp
  | @rightParen _ outer _ hwaiting =>
      obtain ⟨n, opened, content, rfl, hopened, hloose⟩ :=
        hread.exists_loose (hclose rfl)
      -- The innermost open group ends here and becomes an operand of the one around it.
      have hdepth :
          (released ++ .leftParen :: outer).count .leftParen = outer.count .leftParen + 1 := by
        rw [List.count_append, List.count_eq_zero.mpr hwaiting, List.count_cons_self,
          Nat.zero_add]
      rw [hdepth] at hopened
      cases hopened with
      | @group _ before content' hbefore hcontent' =>
          refine ⟨⟨before, content' ++ (.leftParen :: content ++ [.rightParen]),
            ?_, hbefore, ?_⟩, ?_⟩
          · simp
          · exact hcontent'.append (.group hloose)
          · intro _
            rw [endsOperand_concat]
            rfl
  | @operator _ kept op hreleased _ =>
      obtain ⟨n, opened, content, rfl, hopened, hloose⟩ :=
        hread.exists_loose (hread.endsOperand rfl)
      have hdepth :
          (released ++ kept).count .leftParen = (.operator op :: kept).count .leftParen := by
        rw [List.count_append, count_leftParen_eq_zero_of_yieldsTo hreleased, Nat.zero_add,
          List.count_cons_of_ne (by simp)]
      refine ⟨⟨opened, content ++ [.operator op], ?_, ?_, .operator op hloose⟩, ?_⟩
      · rw [List.append_assoc]
      · rwa [hdepth] at hopened
      · simp
  | unknown text _ _ => simp [isUnknown] at hknown

theorem HasRead.runs {pending last : Rpn.Pending} {before tokens output : List Token}
    (hread : HasRead pending before)
    (hruns : Rpn.Pending.Runs pending tokens output last)
    (hclose : GroupsClose before tokens)
    (hknown : tokens.countP isUnknown = 0) :
    HasRead last (before ++ tokens) := by
  induction hruns generalizing before with
  | nil => simpa using hread
  | @cons pending next last token tokens released output hstep _ ih =>
      have hfirst : token.isUnknown = false := by
        have hnone := List.countP_eq_zero.mp hknown token (by simp)
        simpa using hnone
      have hrest : tokens.countP isUnknown = 0 := by
        apply List.countP_eq_zero.mpr
        intro other hother
        exact List.countP_eq_zero.mp hknown other (by simp [hother])
      have hright : token = .rightParen → EndsOperand before := by
        rintro rfl
        simpa using hclose [] tokens rfl
      have hlater : GroupsClose (before ++ [token]) tokens := by
        intro middle after hsplit
        have hend := hclose (token :: middle) after (by rw [hsplit, List.cons_append])
        rwa [List.append_assoc, List.singleton_append]
      have hnext := ih (hread.step hstep hright hfirst) hlater hrest
      rwa [List.append_assoc, List.singleton_append] at hnext

/-! ## The converted expressions with a value -/

theorem exists_loose_of_ofInfix {tokens output : List Token}
    (hconvert : Rpn.ofInfix tokens = .ok output) (hclose : ClosesAfterOperands tokens)
    (hknown : tokens.countP isUnknown = 0) :
    ∃ n, Loose n tokens := by
  obtain ⟨released, last, hruns, hclosed, -⟩ := Rpn.Pending.convert_eq_ok_iff.mp hconvert
  have hread : HasRead last tokens := by
    have hrun := HasRead.start.runs hruns hclose.groups hknown
    simpa using hrun
  obtain ⟨n, opened, content, hsplit, hopened, hloose⟩ := hread.exists_loose hclose.whole
  rw [List.count_eq_zero.mpr hclosed] at hopened
  cases hopened with
  | start => exact ⟨n, by rwa [hsplit, List.nil_append]⟩

theorem countP_ofInfix {tokens output : List Token}
    (hconvert : Rpn.ofInfix tokens = .ok output) (p : Token → Bool)
    (hleft : p .leftParen = false) (hright : p .rightParen = false) :
    output.countP p = tokens.countP p := by
  obtain ⟨released, last, hruns, -, rfl⟩ := Rpn.Pending.convert_eq_ok_iff.mp hconvert
  have hcount := hruns.countP_add p hleft hright
  rw [List.countP_append]
  simpa [Rpn.Pending.start] using hcount

theorem isInfix_of_value {tokens output : List Token} {value : Float}
    (hconvert : Rpn.ofInfix tokens = .ok output) (hvalue : Rpn.evaluate output = .ok value)
    (hclose : ClosesAfterOperands tokens) :
    ∃ expression : Infix Float, tokens = expression.tokens id := by
  obtain ⟨hcount, hknown⟩ :=
    Rpn.length_add_of_foldlM_push (Rpn.evaluate_eq_ok_iff.mp hvalue)
  rw [countP_ofInfix hconvert isOperator rfl rfl, countP_ofInfix hconvert isNumber rfl rfl]
    at hcount
  rw [countP_ofInfix hconvert isUnknown rfl rfl] at hknown
  obtain ⟨n, hloose⟩ := exists_loose_of_ofInfix hconvert hclose hknown
  have hnumbers := hloose.countP_isNumber
  apply hloose.exists_infix
  simp only [List.length_singleton, List.length_nil] at hcount
  omega

/-- A text with a value is an infix expression exactly when its groups and the
text itself end with an operand. -/
theorem isInfix_iff_closesAfterOperands {text : String} {value : Float}
    (hvalue : evaluate text = .ok value) :
    (∃ expression : Infix Float, tokenize text = expression.tokens id) ↔
      ClosesAfterOperands (tokenize text) := by
  constructor
  · rintro ⟨expression, htokens⟩
    rw [htokens]
    exact expression.closesAfterOperands id
  · intro hclose
    unfold evaluate at hvalue
    cases hconvert : Rpn.ofInfix (tokenize text) with
    | error refusal =>
        rw [hconvert] at hvalue
        cases hvalue
    | ok output =>
        rw [hconvert] at hvalue
        exact isInfix_of_value hconvert hvalue hclose

theorem isInfix_iff_group :
    evaluate "(1+2)*3" = .ok 9 ∧
      ((∃ expression : Infix Float, tokenize "(1+2)*3" = expression.tokens id) ↔
        ClosesAfterOperands (tokenize "(1+2)*3")) := by
  have htokens : tokenize "(1+2)*3" =
      [.leftParen, .number 1, .operator .plus, .number 2, .rightParen, .operator .times,
        .number 3] := by
    decide +kernel
  have hvalue : evaluate "(1+2)*3" = .ok 9 := by
    have hproduct : ((1 + 2) * 3 : Float) = 9 := by decide +kernel
    rw [evaluate, htokens, ← hproduct]
    rfl
  exact ⟨hvalue, isInfix_iff_closesAfterOperands hvalue⟩

/-- The operator at the end finds two operands on its left. -/
theorem exists_value_of_not_isInfix :
    evaluate "1 2 +" = .ok 3 ∧
      ¬∃ expression : Infix Float, tokenize "1 2 +" = expression.tokens id := by
  have htokens : tokenize "1 2 +" = [.number 1, .number 2, .operator .plus] := by
    decide +kernel
  constructor
  · have hsum : (1 + 2 : Float) = 3 := by decide +kernel
    rw [evaluate, htokens, ← hsum]
    rfl
  · rintro ⟨expression, hexpression⟩
    have hclose := expression.closesAfterOperands id
    rw [← hexpression, htokens] at hclose
    have hwhole := hclose.whole
    simp [EndsOperand, endsOperand] at hwhole

end InfixCalculator
