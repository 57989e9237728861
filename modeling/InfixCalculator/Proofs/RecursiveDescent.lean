import InfixCalculator.Proofs.Precedence

/-!
# Recursive descent

The reference reading of an expression.  It has a table of operators of its own,
with a row for each level.  An expression of a level is a chain of expressions of the
next level, folded to the left as it is read, and after the last level stand numbers
and groups.

It keeps no stack, and asks no operator for its precedence.  Because the table agrees
with the precedences, it finds the grouping of every infix expression.
-/

namespace InfixCalculator
namespace RecursiveDescent

theorem length_le_cons {tail rest last : List Token} (token : Token)
    (hrest : rest.length < tail.length) (hlast : last.length ≤ rest.length) :
    last.length ≤ (token :: tail).length := by
  rw [List.length_cons]
  omega

theorem length_lt_cons {tail rest : List Token} (token closing : Token)
    (hrest : (closing :: rest).length < tail.length) :
    rest.length < (token :: tail).length := by
  rw [List.length_cons] at *
  omega

/-- The operators of each level, the loosest level first. -/
def levels : List (List Operator) :=
  [[.plus, .minus], [.times, .divide, .modulo, .floorDivide], [.power, .caret]]

def operatorsAt (n : Nat) : List Operator :=
  levels.getD n []

theorem mem_operatorsAt_iff {n : Nat} {op : Operator} :
    op ∈ operatorsAt n ↔ op.precedence = n + 1 := by
  rcases n with _ | _ | _ | n
  · cases op <;> decide
  · cases op <;> decide
  · cases op <;> decide
  · have hle := op.precedence_le_three
    simp only [operatorsAt, levels, List.getD_cons_succ, List.getD_nil, List.not_mem_nil,
      false_iff]
    omega

mutual

/-- A chain of level `n` at the head of the tokens, with the tokens after it. -/
def level (n : Nat) (tokens : List Token) :
    Option (Tree × { rest : List Token // rest.length < tokens.length }) :=
  if n < levels.length then
    match level (n + 1) tokens with
    | none => none
    | some (first, ⟨rest, hrest⟩) =>
      match chain n first rest with
      | none => none
      | some (tree, ⟨last, hlast⟩) => some (tree, ⟨last, Nat.lt_of_le_of_lt hlast hrest⟩)
  else operand tokens
termination_by (tokens.length, levels.length - n + 1)

/-- The operators of level `n` that follow `left`, each with its right operand. -/
def chain (n : Nat) (left : Tree) (tokens : List Token) :
    Option (Tree × { rest : List Token // rest.length ≤ tokens.length }) :=
  match tokens with
  | .operator op :: tail =>
    if op ∈ operatorsAt n then
      match level (n + 1) tail with
      | none => none
      | some (right, ⟨rest, hrest⟩) =>
        match chain n (.node op left right) rest with
        | none => none
        | some (tree, ⟨last, hlast⟩) => some (tree, ⟨last, length_le_cons _ hrest hlast⟩)
    else some (left, ⟨.operator op :: tail, Nat.le_refl _⟩)
  | tokens => some (left, ⟨tokens, Nat.le_refl _⟩)
termination_by (tokens.length, 0)

def operand (tokens : List Token) :
    Option (Tree × { rest : List Token // rest.length < tokens.length }) :=
  match tokens with
  | .number x :: tail => some (.leaf x, ⟨tail, Nat.lt_add_one _⟩)
  | .leftParen :: tail =>
    match level 0 tail with
    | some (inner, ⟨.rightParen :: rest, hrest⟩) => some (inner, ⟨rest, length_lt_cons _ _ hrest⟩)
    | _ => none
  | _ => none
termination_by (tokens.length, 0)

end

def tree? (tokens : List Token) : Option Tree :=
  match level 0 tokens with
  | some (tree, ⟨[], _⟩) => some tree
  | _ => none

/-! ## The equations of the descent -/

/-- What is read, without the bound on the tokens after it. -/
def reading {p : List Token → Prop} (found : Option (Tree × { rest : List Token // p rest })) :
    Option (Tree × List Token) :=
  found.map fun result => (result.1, result.2.val)

theorem reading_level_of_le {n : Nat} (hn : 3 ≤ n) (tokens : List Token) :
    reading (level n tokens) = reading (operand tokens) := by
  have hlast : ¬n < levels.length := Nat.not_lt.mpr hn
  rw [level, if_neg hlast]

theorem reading_level_of_lt {n : Nat} (hn : n < 3) (tokens : List Token) :
    reading (level n tokens) =
      (reading (level (n + 1) tokens)).bind fun result =>
        reading (chain n result.1 result.2) := by
  have hlevel : n < levels.length := hn
  rw [level, if_pos hlevel]
  cases level (n + 1) tokens with
  | none => rfl
  | some result =>
      obtain ⟨first, rest, hrest⟩ := result
      simp only [reading, Option.map_some, Option.bind_some]
      cases chain n first rest <;> rfl

theorem reading_chain_operator {n : Nat} {op : Operator} (hop : op.precedence = n + 1)
    (left : Tree) (tail : List Token) :
    reading (chain n left (.operator op :: tail)) =
      (reading (level (n + 1) tail)).bind fun result =>
        reading (chain n (.node op left result.1) result.2) := by
  rw [chain.eq_def]
  simp only [mem_operatorsAt_iff.mpr hop, if_true]
  cases level (n + 1) tail with
  | none => rfl
  | some result =>
      obtain ⟨right, rest, hrest⟩ := result
      simp only [reading, Option.map_some, Option.bind_some]
      cases chain n (.node op left right) rest <;> rfl

theorem reading_chain_of_ne {n : Nat} {tokens : List Token} (left : Tree)
    (hne : ∀ op tail, tokens = .operator op :: tail → op.precedence ≠ n + 1) :
    reading (chain n left tokens) = some (left, tokens) := by
  rw [chain.eq_def]
  split
  next op tail =>
    rw [if_neg (mt mem_operatorsAt_iff.mp (hne op tail rfl))]
    rfl
  next => rfl

theorem reading_operand_leftParen {tail rest : List Token} {inner : Tree}
    (hinner : reading (level 0 tail) = some (inner, .rightParen :: rest)) :
    reading (operand (.leftParen :: tail)) = some (inner, rest) := by
  rw [operand]
  cases hlevel : level 0 tail with
  | none =>
      rw [hlevel] at hinner
      cases hinner
  | some result =>
      obtain ⟨found, last, hlast⟩ := result
      rw [hlevel] at hinner
      simp only [reading, Option.map_some, Option.some.injEq, Prod.mk.injEq] at hinner
      obtain ⟨rfl, rfl⟩ := hinner
      rfl

/-! ## The descent finds the grouping -/

def NoTighter (n : Nat) (rest : List Token) : Prop :=
  ∀ op tail, rest = .operator op :: tail → op.precedence ≤ n

theorem NoTighter.mono {m n : Nat} {rest : List Token} (hle : m ≤ n) (hrest : NoTighter m rest) :
    NoTighter n rest := by
  intro op tail hsplit
  exact (hrest op tail hsplit).trans hle

theorem reading_chain_of_noTighter {m n : Nat} {rest : List Token} (left : Tree)
    (hle : m ≤ n) (hrest : NoTighter m rest) :
    reading (chain n left rest) = some (left, rest) := by
  apply reading_chain_of_ne
  intro op tail hsplit heq
  have hop := hrest op tail hsplit
  omega

/-- What is read at a level is read at every looser level as the first operand of
its chain. -/
theorem reading_level_mono {m n : Nat} {tokens rest : List Token} {tree : Tree}
    (hle : m ≤ n) (hn : n ≤ 3) (hrest : NoTighter (m + 1) rest)
    (hread : reading (level n tokens) = reading (chain n tree rest)) :
    reading (level m tokens) = reading (chain m tree rest) := by
  induction n, hle using Nat.le_induction with
  | base => exact hread
  | succ n hmn ih =>
      apply ih (by omega)
      rw [reading_level_of_lt (by omega), hread,
        reading_chain_of_noTighter tree (by omega) hrest, Option.bind_some]

/-- The level `n` of the descent reads operators of precedence `n + 1`. -/
theorem reading_level_of_groups {bound : Nat} {tokens : List Token} {tree : Tree}
    (hgroups : Groups bound tokens tree) {n : Nat} (hbound : n + 1 ≤ bound) (hn : n ≤ 3)
    (rest : List Token) (hrest : NoTighter (n + 1) rest) :
    reading (level n (tokens ++ rest)) = reading (chain n tree rest) := by
  have hstop {tree : Tree} {rest : List Token} : reading (chain 3 tree rest) = some (tree, rest) :=
    reading_chain_of_ne tree fun op tail _ => by
      have hle := op.precedence_le_three
      omega
  induction hgroups generalizing n rest with
  | number x =>
      apply reading_level_mono hn (le_refl 3) hrest
      rw [reading_level_of_le (le_refl 3), hstop, List.singleton_append, operand]
      rfl
  | @group _ tokens tree _ ih =>
      apply reading_level_mono hn (le_refl 3) hrest
      have hinner : reading (level 0 (tokens ++ .rightParen :: rest)) =
          some (tree, .rightParen :: rest) := by
        rw [ih (le_refl 1) (by omega) _ (by simp [NoTighter])]
        exact reading_chain_of_ne tree (by simp)
      rw [reading_level_of_le (le_refl 3), hstop, List.append_assoc, List.cons_append,
        List.singleton_append]
      exact reading_operand_leftParen hinner
  | @operator level' op first second left right hlevel _ _ ihleft ihright =>
      obtain ⟨k, hk⟩ : ∃ k, op.precedence = k + 1 := Nat.exists_eq_add_one.mpr op.one_le_precedence
      have hprecedence := op.precedence_le_three
      have hloose : NoTighter (k + 1) rest := hrest.mono (by omega)
      apply reading_level_mono (n := k) (by omega) (by omega) hrest
      -- The left operand is read up to `op`, which goes on the chain of its level.
      have hhead : NoTighter (k + 1) (.operator op :: (second ++ rest)) := by
        intro op' tail hsplit
        cases hsplit
        exact hk.le
      have hfirst := ihleft hk.ge (by omega) _ hhead
      have hsecond : reading (level (k + 1) (second ++ rest)) = some (right, rest) := by
        rw [ihright (by omega) (by omega) rest (hloose.mono (by omega))]
        exact reading_chain_of_noTighter right (le_refl _) hloose
      rw [List.append_assoc, List.cons_append, hfirst, reading_chain_operator hk, hsecond,
        Option.bind_some]

theorem tree?_of_groups {tokens : List Token} {tree : Tree} (hgroups : Groups 1 tokens tree) :
    tree? tokens = some tree := by
  have hread : reading (level 0 tokens) = some (tree, []) := by
    have hdescent := reading_level_of_groups hgroups (le_refl 1) (by omega) []
      (by simp [NoTighter])
    rw [List.append_nil] at hdescent
    rw [hdescent]
    exact reading_chain_of_ne tree (by simp)
  rw [tree?]
  cases hlevel : level 0 tokens with
  | none =>
      rw [hlevel] at hread
      cases hread
  | some result =>
      obtain ⟨found, last, hlast⟩ := result
      rw [hlevel] at hread
      simp only [reading, Option.map_some, Option.some.injEq, Prod.mk.injEq] at hread
      obtain ⟨rfl, rfl⟩ := hread
      rfl

end RecursiveDescent
end InfixCalculator
