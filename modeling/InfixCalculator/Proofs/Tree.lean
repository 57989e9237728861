import InfixCalculator.Rpn.Evaluation

/-!
# Trees of operations

A tree says which operator is applied to which operands.  Its postorder is the
postfix order of the expression, and evaluating that order gives the value of
the tree.

Only an integer division can be refused, so a tree without a value has such a
division by zero at the place where its evaluation stops.
-/

namespace InfixCalculator

inductive Tree where
  | leaf (value : Float)
  | node (op : Operator) (left right : Tree)
deriving DecidableEq

namespace Tree

/-- The left operand is evaluated first. -/
def value : Tree → Except Refusal Float
  | leaf value => .ok value
  | node op left right => do
    let a ← left.value
    let b ← right.value
    op.apply a b

def postorder : Tree → List Token
  | leaf value => [.number value]
  | node op left right => left.postorder ++ right.postorder ++ [.operator op]

/-- The evaluation of the tree comes to an integer division whose divisor has the
whole part zero. -/
inductive MeetsZeroDivisor : Tree → Prop
  | left {op : Operator} {left right : Tree} (hleft : left.MeetsZeroDivisor) :
      (node op left right).MeetsZeroDivisor
  | right {op : Operator} {left right : Tree} {a : Float}
      (hleft : left.value = .ok a) (hright : right.MeetsZeroDivisor) :
      (node op left right).MeetsZeroDivisor
  | here {left right : Tree} {a b : Float}
      (hleft : left.value = .ok a) (hright : right.value = .ok b)
      (hzero : Binary64.toInt64 b = 0) :
      (node .floorDivide left right).MeetsZeroDivisor

theorem value_node (op : Operator) (left right : Tree) :
    (node op left right).value =
      left.value.bind fun a => right.value.bind fun b => op.apply a b := rfl

theorem value_eq_error_iff {tree : Tree} {refusal : Refusal} :
    tree.value = .error refusal ↔
      refusal = .integerDivisionByZero ∧ tree.MeetsZeroDivisor := by
  induction tree generalizing refusal with
  | leaf value =>
      constructor
      · intro herror
        cases herror
      · rintro ⟨-, hmeets⟩
        cases hmeets
  | node op left right ihleft ihright =>
      rw [value_node]
      cases hleft : left.value with
      | error stopped =>
          obtain ⟨hstopped, hmeets⟩ := ihleft.mp hleft
          simp only [Except.bind, Except.error.injEq]
          constructor
          · rintro rfl
            exact ⟨hstopped, .left hmeets⟩
          · rintro ⟨rfl, -⟩
            exact hstopped
      | ok a =>
          have hclean : ¬left.MeetsZeroDivisor := by
            intro hmeets
            have herror := ihleft.mpr ⟨rfl, hmeets⟩
            rw [hleft] at herror
            cases herror
          cases hright : right.value with
          | error stopped =>
              obtain ⟨hstopped, hmeets⟩ := ihright.mp hright
              simp only [Except.bind, Except.error.injEq]
              constructor
              · rintro rfl
                exact ⟨hstopped, .right hleft hmeets⟩
              · rintro ⟨rfl, -⟩
                exact hstopped
          | ok b =>
              simp only [Except.bind]
              rw [Operator.apply_eq_error_iff]
              constructor
              · rintro ⟨rfl, hzero, hrefusal⟩
                exact ⟨hrefusal, .here hleft hright hzero⟩
              · rintro ⟨hrefusal, hmeets⟩
                cases hmeets with
                | left hmeets => exact absurd hmeets hclean
                | right _ hmeets =>
                    have herror := ihright.mpr ⟨rfl, hmeets⟩
                    rw [hright] at herror
                    cases herror
                | here _ hdivisor hzero =>
                    rw [hright, Except.ok.injEq] at hdivisor
                    rw [hdivisor]
                    exact ⟨rfl, hzero, hrefusal⟩

/-! ## The postorder determines the tree -/

/-- At the end of a list of tokens stands the postorder of at most one tree. -/
theorem append_postorder_inj {before other : List Token} {tree tree' : Tree}
    (h : before ++ tree.postorder = other ++ tree'.postorder) : before = other ∧ tree = tree' := by
  induction tree generalizing before other tree' with
  | leaf value =>
      cases tree' with
      | leaf value' => simpa [postorder] using h
      | node op left right =>
          rw [postorder, postorder, ← List.append_assoc] at h
          have hlast := (List.append_inj' h rfl).2
          simp at hlast
  | node op left right ihleft ihright =>
      cases tree' with
      | leaf value =>
          rw [postorder, postorder, ← List.append_assoc] at h
          have hlast := (List.append_inj' h rfl).2
          simp at hlast
      | node op' left' right' =>
          simp only [postorder, ← List.append_assoc] at h
          obtain ⟨hoperands, hlast⟩ := List.append_inj' h rfl
          obtain ⟨hbefore, rfl⟩ := ihright hoperands
          obtain ⟨rfl, rfl⟩ := ihleft hbefore
          obtain rfl : op = op' := by simpa using hlast
          exact ⟨rfl, rfl⟩

theorem postorder_injective {tree tree' : Tree} (h : tree.postorder = tree'.postorder) :
    tree = tree' :=
  (append_postorder_inj (congrArg ([] ++ ·) h)).2

/-! ## The postorder has the value of the tree -/

theorem foldlM_push_postorder (tree : Tree) (values : List Float) :
    tree.postorder.foldlM Rpn.push values = tree.value.map (· :: values) := by
  induction tree generalizing values with
  | leaf value => rfl
  | node op left right ihleft ihright =>
      rw [postorder, List.foldlM_append, List.foldlM_append, ihleft, value_node]
      cases hleft : left.value with
      | error refusal => rfl
      | ok a =>
          simp only [Except.map, Except.bind, bind]
          rw [ihright]
          cases hright : right.value with
          | error refusal => rfl
          | ok b =>
              simp only [Except.map, Except.bind, bind, List.foldlM, Rpn.push]
              cases op.apply a b <;> rfl

theorem evaluate_postorder (tree : Tree) : Rpn.evaluate tree.postorder = tree.value := by
  rw [Rpn.evaluate, foldlM_push_postorder]
  cases tree.value <;> rfl

end Tree
end InfixCalculator
