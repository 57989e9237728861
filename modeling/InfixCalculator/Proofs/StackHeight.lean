import InfixCalculator.Proofs.Arrangement
import InfixCalculator.Proofs.Precedence
import Mathlib.Data.List.Infix
import Mathlib.Data.List.MinMax

/-!
# How high the stacks grow

Neither stack grows with the length of an expression.  Between two opening parentheses
the precedences of the waiting tokens rise strictly towards the top, and there are only
four of them.  The values on the other stack are left operands that wait for a right
one: at most one for each level of precedence, in every group that is open.

The first is an invariant of the steps of the conversion.  The second is read off the
tree of the expression, as a left operand leaves one value behind while the right one
is evaluated.
-/

namespace InfixCalculator

open Token

/-! ## Open parentheses -/

/-- The number of parentheses that are open after the tokens. -/
def openParens (tokens : List Token) : Nat :=
  tokens.count leftParen - tokens.count rightParen

/-- The largest number of parentheses that are open at once. -/
def nesting (tokens : List Token) : Nat :=
  (tokens.inits.map openParens).foldr max 0

/-- At no point are more parentheses open than `depth`. -/
def NestsWithin (depth : Nat) (tokens : List Token) : Prop :=
  ∀ before, before <+: tokens → before.count leftParen ≤ before.count rightParen + depth

theorem nestsWithin_nesting (tokens : List Token) : NestsWithin (nesting tokens) tokens := by
  intro before hbefore
  have hmem : openParens before ∈ tokens.inits.map openParens :=
    List.mem_map_of_mem ((List.mem_inits before tokens).mpr hbefore)
  have hle : openParens before ≤ nesting tokens := List.le_max_of_le' 0 hmem le_rfl
  unfold openParens at hle
  omega

namespace NestsWithin

variable {depth : Nat} {first second tokens : List Token}

theorem of_append_left (hnests : NestsWithin depth (first ++ second)) :
    NestsWithin depth first := by
  intro before hbefore
  exact hnests before (hbefore.trans (List.prefix_append first second))

/-- After tokens that close what they open. -/
theorem of_append_right (hnests : NestsWithin depth (first ++ second))
    (hclosed : first.count leftParen = first.count rightParen) : NestsWithin depth second := by
  intro before hbefore
  have hwhole := hnests (first ++ before) ((List.prefix_append_right_inj first).mpr hbefore)
  simp only [List.count_append] at hwhole
  omega

theorem exists_of_group (hnests : NestsWithin depth (leftParen :: tokens ++ [rightParen])) :
    ∃ inner, depth = inner + 1 ∧ NestsWithin inner tokens := by
  have hinside (before : List Token) (hbefore : before <+: tokens) :
      before.count leftParen + 1 ≤ before.count rightParen + depth := by
    have hprefix : leftParen :: before <+: leftParen :: tokens ++ [rightParen] :=
      List.cons_prefix_cons.mpr ⟨rfl, hbefore.trans (List.prefix_append tokens _)⟩
    simpa using hnests _ hprefix
  have hpositive : 1 ≤ depth := by simpa using hinside [] List.nil_prefix
  refine ⟨depth - 1, by omega, ?_⟩
  intro before hbefore
  have hbound := hinside before hbefore
  omega

end NestsWithin

/-! ## The waiting tokens -/

theorem Token.precedence_le_three (token : Token) : token.precedence ≤ 3 := by
  cases token with
  | operator op => exact op.precedence_le_three
  | _ => exact Nat.zero_le 3

namespace Rpn

/-- Where no parenthesis comes between them, the precedences of the waiting tokens rise
strictly towards the top of the stack. -/
def Ascending (stack : List Token) : Prop :=
  ∀ segment, segment <:+: stack → leftParen ∉ segment →
    segment.Pairwise fun upper lower => lower.precedence < upper.precedence

namespace Ascending

variable {stack : List Token}

theorem of_suffix (hstack : Ascending stack) {lower : List Token} (hlower : lower <:+ stack) :
    Ascending lower := by
  intro segment hsegment
  exact hstack segment (hsegment.trans hlower.isInfix)

theorem cons_leftParen (hstack : Ascending stack) : Ascending (leftParen :: stack) := by
  intro segment hsegment hnone
  rcases List.infix_cons_iff.mp hsegment with hprefix | hinfix
  · cases segment with
    | nil => exact .nil
    | cons top segment =>
        have htop : top = leftParen := (List.cons_prefix_cons.mp hprefix).1
        exact absurd (by simp [htop]) hnone
  · exact hstack segment hinfix hnone

/-- A token that nothing on the stack yields to may wait on top of it. -/
theorem cons {token : Token} (hstack : Ascending stack)
    (hkept : ∀ top, stack.head? = some top → yieldsTo token.precedence top = false) :
    Ascending (token :: stack) := by
  intro segment hsegment hnone
  rcases List.infix_cons_iff.mp hsegment with hprefix | hinfix
  · cases segment with
    | nil => exact .nil
    | cons first segment =>
        obtain ⟨rfl, hbelow⟩ := List.cons_prefix_cons.mp hprefix
        have hsorted := hstack segment hbelow.isInfix (fun hmem => hnone (by simp [hmem]))
        refine .cons ?_ hsorted
        cases segment with
        | nil => simp
        | cons top others =>
            obtain ⟨rest, hstackeq⟩ := hbelow
            have hlooser : top.precedence < first.precedence := by
              have hne : top ≠ leftParen := by
                rintro rfl
                simp at hnone
              have hyields := hkept top (by rw [← hstackeq]; rfl)
              simpa [yieldsTo, hne] using hyields
            intro lower hlower
            rcases List.mem_cons.mp hlower with rfl | hmem
            · exact hlooser
            · exact (List.rel_of_pairwise_cons hsorted hmem).trans hlooser
  · exact hstack segment hinfix hnone

end Ascending

theorem Pending.Step.ascending {pending next : Pending} {token : Token} {released : List Token}
    (hstep : Step pending token released next) (hstack : Ascending pending.stack) :
    Ascending next.stack := by
  cases hstep with
  | number value => exact hstack
  | leftParen => exact hstack.cons_leftParen
  | rightParen _ =>
      exact hstack.of_suffix ((List.suffix_cons _ _).trans (List.suffix_append _ _))
  | operator op _ hkept => exact (hstack.of_suffix (List.suffix_append _ _)).cons hkept
  | unknown text _ hkept => exact (hstack.of_suffix (List.suffix_append _ _)).cons hkept

theorem Pending.Runs.ascending {pending last : Pending} {tokens output : List Token}
    (hruns : Runs pending tokens output last) (hstack : Ascending pending.stack) :
    Ascending last.stack := by
  induction hruns with
  | nil => exact hstack
  | cons hstep _ ih => exact ih (hstep.ascending hstack)

theorem ascending_nil : Ascending [] := by
  intro segment hsegment _
  rw [List.infix_nil.mp hsegment]
  exact .nil

/-- Each token has a precedence of its own, so there are no more than precedences. -/
theorem length_le_of_pairwise {segment : List Token} {top : Token}
    (hsorted : (top :: segment).Pairwise fun upper lower => lower.precedence < upper.precedence) :
    segment.length ≤ top.precedence := by
  induction segment generalizing top with
  | nil => exact Nat.zero_le _
  | cons next segment ih =>
      have hnext := List.rel_of_pairwise_cons hsorted List.mem_cons_self
      have hrest := ih hsorted.of_cons
      rw [List.length_cons]
      omega

theorem Ascending.length_le_four {segment : List Token} (hsegment : Ascending segment)
    (hnone : leftParen ∉ segment) : segment.length ≤ 4 := by
  cases segment with
  | nil => exact Nat.zero_le 4
  | cons top segment =>
      have hlength := length_le_of_pairwise (hsegment _ List.infix_rfl hnone)
      have hthree := top.precedence_le_three
      rw [List.length_cons]
      omega

theorem Ascending.length_le {stack : List Token} (hstack : Ascending stack) :
    stack.length ≤ stack.count leftParen + 4 * (stack.count leftParen + 1) := by
  induction hcount : stack.count leftParen generalizing stack with
  | zero =>
      have hfour := hstack.length_le_four (List.count_eq_zero.mp hcount)
      omega
  | succ depth ih =>
      have hmem : leftParen ∈ stack := List.count_pos_iff.mp (by omega)
      obtain ⟨segment, below, rfl, hnone⟩ := List.eq_append_cons_of_mem hmem
      rw [List.count_append, List.count_eq_zero.mpr hnone, List.count_cons_self] at hcount
      have hbelow := ih
        (hstack.of_suffix ((List.suffix_cons _ _).trans (List.suffix_append segment _)))
        (by omega)
      have hsegment : Ascending segment := fun part hpart =>
        hstack part (hpart.trans (List.prefix_append segment _).isInfix)
      have hfour := hsegment.length_le_four hnone
      rw [List.length_append, List.length_cons]
      omega

end Rpn

/-! ## The values -/

namespace Tree

/-- How many values lie on the stack at once while the postorder is evaluated. -/
def height : Tree → Nat
  | leaf _ => 1
  | node _ left right => max left.height (right.height + 1)

theorem one_le_height (tree : Tree) : 1 ≤ tree.height := by
  cases tree with
  | leaf value => exact le_rfl
  | node op left right => exact (Nat.le_add_left 1 _).trans (Nat.le_max_right _ _)

theorem length_of_foldlM_push_postorder (tree : Tree) {base values : List Float}
    (hfold : tree.postorder.foldlM Rpn.push base = .ok values) :
    values.length = base.length + 1 := by
  rw [foldlM_push_postorder] at hfold
  cases hvalue : tree.value with
  | error refusal =>
      rw [hvalue] at hfold
      cases hfold
  | ok value =>
      rw [hvalue] at hfold
      cases hfold
      rfl

theorem length_le_of_prefix_postorder {tree : Tree} {before : List Token}
    (hbefore : before <+: tree.postorder) {base values : List Float}
    (hfold : before.foldlM Rpn.push base = .ok values) :
    values.length ≤ base.length + tree.height := by
  -- Above any values that lie on the stack already.
  induction tree generalizing before base values with
  | leaf value =>
      rcases List.prefix_cons_iff.mp hbefore with rfl | ⟨rest, rfl, hrest⟩
      · cases hfold
        exact Nat.le_add_right _ _
      · obtain rfl := List.prefix_nil.mp hrest
        exact ((leaf value).length_of_foldlM_push_postorder hfold).le
  | node op left right ihleft ihright =>
      rw [postorder] at hbefore
      rcases List.prefix_concat_iff.mp hbefore with rfl | hbefore
      · have hlength := (node op left right).length_of_foldlM_push_postorder hfold
        have hone := (node op left right).one_le_height
        omega
      rw [height]
      rcases List.prefix_or_prefix_of_prefix hbefore (List.prefix_append _ _) with
        hleft | ⟨more, rfl⟩
      · have hbound := ihleft hleft hfold
        omega
      · -- The value of the left operand waits below those of the right one.
        have hright := (List.prefix_append_right_inj _).mp hbefore
        rw [List.foldlM_append] at hfold
        cases hreached : left.postorder.foldlM Rpn.push base with
        | error refusal =>
            rw [hreached] at hfold
            cases hfold
        | ok reached =>
            rw [hreached] at hfold
            have hlength := left.length_of_foldlM_push_postorder hreached
            have hbound := ihright hright hfold
            omega

end Tree

theorem Groups.count_parens {level : Nat} {tokens : List Token} {tree : Tree}
    (hgroups : Groups level tokens tree) :
    tokens.count leftParen = tokens.count rightParen := by
  induction hgroups with
  | number x => simp
  | group _ ih => simp [ih]
  | operator _ _ _ ihleft ihright => simp [ihleft, ihright]

/-- Each level above that of the whole expression saves one value, and each group costs
the three levels that can be pending around it. -/
theorem Groups.height_add_le {level : Nat} {tokens : List Token} {tree : Tree}
    (hgroups : Groups level tokens tree) {depth : Nat} (hlevel : level ≤ 4)
    (hnests : NestsWithin depth tokens) : tree.height + level ≤ 3 * depth + 5 := by
  induction hgroups generalizing depth with
  | number x =>
      rw [Tree.height]
      omega
  | group _ ih =>
      obtain ⟨inner, rfl, hinner⟩ := hnests.exists_of_group
      have hbound := ih (by decide) hinner
      omega
  | @operator level op first second left right hlooser hleft _ ihleft ihright =>
      have hthree := op.precedence_le_three
      rw [← List.singleton_append, ← List.append_assoc] at hnests
      have hfirst := ihleft (by omega) hnests.of_append_left.of_append_left
      have hclosed : (first ++ [Token.operator op]).count leftParen =
          (first ++ [Token.operator op]).count rightParen := by
        simp [hleft.count_parens]
      have hsecond := ihright (by omega) (hnests.of_append_right hclosed)
      rw [Tree.height]
      omega

open Rpn Pending in
/-- Whatever the conversion goes on from ascends between the parentheses that are open,
also while tokens are released one by one, so it is bounded by their number.  The stack
of values is bounded by the nesting of the expression. -/
theorem stacks_bounded_by_nesting :
    (∀ tokens output pending, Runs .start tokens output pending →
      (∀ after, ofInfix (tokens ++ after) = (pending.convert after).map (output ++ ·)) ∧
        pending.stack.count leftParen = openParens tokens ∧
        ∀ stack, stack <:+ pending.stack → Ascending stack ∧
          stack.length ≤ stack.count leftParen + 4 * (stack.count leftParen + 1)) ∧
      ∀ expression : Infix Float,
        let tokens := expression.tokens id
        ∃ rpn, ofInfix tokens = .ok rpn ∧
          ∀ before values, before <+: rpn → before.foldlM push [] = .ok values →
            values.length ≤ 3 * nesting tokens + 4 := by
  constructor
  · intro tokens output pending hruns
    have hascending := hruns.ascending ascending_nil
    refine ⟨convert_append_of_runs hruns, ?_, ?_⟩
    · have hcount := hruns.count_leftParen_of_start
      unfold openParens
      omega
    · intro stack hstack
      have hsuffix := hascending.of_suffix hstack
      exact ⟨hsuffix, hsuffix.length_le⟩
  · intro expression tokens
    obtain ⟨tree, hgroups⟩ := expression.exists_groups id
    refine ⟨tree.postorder, ofInfix_of_groups hgroups, ?_⟩
    intro before values hbefore hfold
    have hlength := Tree.length_le_of_prefix_postorder hbefore hfold
    have hheight := hgroups.height_add_le (by decide) (nestsWithin_nesting tokens)
    rw [List.length_nil] at hlength
    omega

open Rpn Pending in
/-- One token of each precedence waits, so the bound of the conversion is attained. -/
theorem stacks_bounded_by_nesting_attained :
    let tokens := [unknown "$", operator .plus, number 1, operator .times, number 2,
      operator .caret]
    let pending : Pending :=
      ⟨[operator .caret, operator .times, operator .plus, unknown "$"], false⟩
    (∃ output, Runs .start tokens output pending) ∧ openParens tokens = 0 ∧
      pending.stack.length = 4 ∧
      pending.stack.length ≤
        pending.stack.count leftParen + 4 * (pending.stack.count leftParen + 1) := by
  intro tokens pending
  have hruns : ∃ output, Runs .start tokens output pending :=
    ⟨_, .cons (step_eq_ok_iff.mp rfl) <| .cons (step_eq_ok_iff.mp rfl) <|
      .cons (step_eq_ok_iff.mp rfl) <| .cons (step_eq_ok_iff.mp rfl) <|
        .cons (step_eq_ok_iff.mp rfl) <| .cons (step_eq_ok_iff.mp rfl) .nil⟩
  obtain ⟨output, houtput⟩ := hruns
  obtain ⟨-, -, hbound⟩ := stacks_bounded_by_nesting.1 tokens output pending houtput
  exact ⟨⟨output, houtput⟩, rfl, rfl, (hbound pending.stack List.suffix_rfl).2⟩

end InfixCalculator
