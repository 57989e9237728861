import InfixCalculator.Proofs.Conversion
import InfixCalculator.Proofs.Infix
import InfixCalculator.Proofs.Tree

/-!
# Precedence

`Groups level tokens tree` says that the tokens read as the tree when every
operator binds by its precedence and to the left, and that no operator outside
parentheses binds looser than `level`.  Every infix expression groups, and the
conversion releases the postorder of the tree.

The invariant of the conversion is that the waiting tokens of the expression bind
at least as tightly as `level`, while those below them bind looser.
-/

namespace InfixCalculator

/-- The tokens read as the tree; outside parentheses no operator binds looser than
`level`. -/
inductive Groups : Nat → List Token → Tree → Prop
  | number {level : Nat} (x : Float) : Groups level [.number x] (.leaf x)
  | group {level : Nat} {tokens : List Token} {tree : Tree} (hinner : Groups 1 tokens tree) :
      Groups level (.leftParen :: tokens ++ [.rightParen]) tree
  | operator {level : Nat} {op : Operator} {first second : List Token} {left right : Tree}
      (hlevel : level ≤ op.precedence) (hleft : Groups op.precedence first left)
      (hright : Groups (op.precedence + 1) second right) :
      Groups level (first ++ .operator op :: second) (.node op left right)

/-! ## Infix expressions group -/

/-- An operand that is added on the right goes down to the operators that bind
looser than the new one. -/
theorem Groups.exists_append {level : Nat} {tokens operand : List Token} {tree right : Tree}
    (hgroups : Groups level tokens tree) (op : Operator) (hlevel : level ≤ op.precedence)
    (hoperand : ∀ level, Groups level operand right) :
    ∃ whole, Groups level (tokens ++ .operator op :: operand) whole := by
  induction hgroups with
  | number x => exact ⟨_, .operator hlevel (.number x) (hoperand _)⟩
  | group hinner _ => exact ⟨_, .operator hlevel (.group hinner) (hoperand _)⟩
  | @operator level op' first second left right' hlevel' hleft hright _ ihright =>
      by_cases htighter : op.precedence ≤ op'.precedence
      · exact ⟨_, .operator hlevel (.operator htighter hleft hright) (hoperand _)⟩
      · obtain ⟨last, hlast⟩ := ihright (by omega)
        rw [List.append_assoc, List.cons_append]
        exact ⟨_, .operator hlevel' hleft hlast⟩

mutual

theorem Infix.exists_groups (value : α → Float) :
    ∀ expression : Infix α, ∃ tree, Groups 1 (expression.tokens value) tree
  | .operand atom => by
      obtain ⟨tree, htree⟩ := atom.exists_groups value
      exact ⟨tree, htree 1⟩
  | .chain left op right => by
      obtain ⟨first, hfirst⟩ := left.exists_groups value
      obtain ⟨last, hlast⟩ := right.exists_groups value
      exact hfirst.exists_append op op.one_le_precedence hlast

theorem Operand.exists_groups (value : α → Float) :
    ∀ atom : Operand α, ∃ tree, ∀ level, Groups level (atom.tokens value) tree
  | .leaf x => ⟨.leaf (value x), fun _ => .number (value x)⟩
  | .group inner => by
      obtain ⟨tree, htree⟩ := inner.exists_groups value
      exact ⟨tree, fun _ => .group htree⟩

end

/-! ## The conversion releases the postorder -/

namespace Rpn

theorem yieldsTo_eq_false_of_le {level precedence : Nat} {waiting : Token}
    (hle : level ≤ precedence) (hkept : yieldsTo level waiting = false) :
    yieldsTo precedence waiting = false := by
  simp only [yieldsTo, Bool.and_eq_false_iff, decide_eq_false_iff_not] at hkept ⊢
  rcases hkept with hparen | hlooser
  · exact Or.inl hparen
  · right
    omega

theorem yieldsTo_of_le {level precedence : Nat} {waiting : Token}
    (hle : level ≤ precedence) (hreleased : yieldsTo precedence waiting = true) :
    yieldsTo level waiting = true := by
  simp only [yieldsTo, Bool.and_eq_true, decide_eq_true_eq] at hreleased ⊢
  exact ⟨hreleased.1, hle.trans hreleased.2⟩

theorem yieldsTo_operator (precedence : Nat) (op : Operator) :
    yieldsTo precedence (.operator op) = decide (precedence ≤ op.precedence) := by
  have hne : (Token.operator op != .leftParen) = true := rfl
  rw [yieldsTo, hne, Bool.true_and]
  rfl

open Pending

/-- What a run over an expression that groups leaves of its postorder above the
tokens that waited before. -/
theorem exists_runs_of_groups {level : Nat} {tokens : List Token} {tree : Tree}
    (hgroups : Groups level tokens tree) (stack : List Token) (afterValue : Bool)
    (hstack : ∀ top, stack.head? = some top → yieldsTo level top = false) :
    ∃ released waiting,
      Runs ⟨stack, afterValue⟩ tokens released ⟨waiting ++ stack, true⟩ ∧
        released ++ waiting = tree.postorder ∧
        ∀ token ∈ waiting, yieldsTo level token = true := by
  induction hgroups generalizing stack afterValue with
  | number x => exact ⟨[.number x], [], Runs.singleton (.number x), rfl, by simp⟩
  | @group level tokens tree _ ih =>
      obtain ⟨released, waiting, hruns, hpostorder, hwaiting⟩ := ih [] false (by simp)
      have hclosed : .leftParen ∉ waiting := by
        intro hmem
        have hyields := hwaiting _ hmem
        simp at hyields
      have hconvert : ofInfix tokens = .ok tree.postorder :=
        convert_eq_ok_iff.mpr ⟨released, _, hruns, by simpa using hclosed, by simp [hpostorder]⟩
      exact ⟨tree.postorder, [], runs_group hconvert stack afterValue, by simp, by simp⟩
  | @operator level op first second left right hlevel _ _ ihleft ihright =>
      have hbelow : ∀ top, stack.head? = some top → yieldsTo op.precedence top = false :=
        fun top htop => yieldsTo_eq_false_of_le hlevel (hstack top htop)
      -- All that waits of the left operand binds at least as tightly as `op`, so `op`
      -- releases it and then waits below the right operand.
      obtain ⟨released₁, waiting₁, hruns₁, hpostorder₁, hwaiting₁⟩ :=
        ihleft stack afterValue hbelow
      have hstep : Step ⟨waiting₁ ++ stack, true⟩ (.operator op) waiting₁
          ⟨.operator op :: stack, false⟩ :=
        .operator op hwaiting₁ hbelow
      have habove : ∀ top, (Token.operator op :: stack).head? = some top →
          yieldsTo (op.precedence + 1) top = false := by
        intro top htop
        have hop : .operator op = top := by simpa using htop
        rw [← hop, yieldsTo_operator]
        simp
      obtain ⟨released₂, waiting₂, hruns₂, hpostorder₂, hwaiting₂⟩ :=
        ihright (.operator op :: stack) false habove
      refine ⟨released₁ ++ (waiting₁ ++ released₂), waiting₂ ++ [.operator op], ?_, ?_, ?_⟩
      · rw [List.append_assoc waiting₂, List.singleton_append]
        exact hruns₁.append (.cons hstep hruns₂)
      · rw [Tree.postorder, ← hpostorder₁, ← hpostorder₂]
        simp
      · intro token htoken
        rcases List.mem_append.mp htoken with hmem | hmem
        · exact yieldsTo_of_le (by omega) (hwaiting₂ token hmem)
        · have hop : token = .operator op := by simpa using hmem
          rw [hop, yieldsTo_operator]
          simpa using hlevel

theorem ofInfix_of_groups {tokens : List Token} {tree : Tree} (hgroups : Groups 1 tokens tree) :
    ofInfix tokens = .ok tree.postorder := by
  obtain ⟨released, waiting, hruns, hpostorder, hwaiting⟩ :=
    exists_runs_of_groups hgroups [] false (by simp)
  refine convert_eq_ok_iff.mpr ⟨released, _, hruns, ?_, by simp [hpostorder]⟩
  intro hmem
  have hyields := hwaiting _ (by simpa using hmem)
  simp at hyields

end Rpn
end InfixCalculator
