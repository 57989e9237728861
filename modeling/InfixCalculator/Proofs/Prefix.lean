import Mathlib.Data.List.DropRight
import Mathlib.Data.List.TakeWhile

/-!
# The longest prefix of a class

Lexemes and released tokens are both the longest prefix whose elements satisfy a
test.  A split of a list is that prefix and what comes after it exactly when the
test holds throughout the one and fails at the head of the other.  The longest suffix
of a class is cut off in the same way.
-/

namespace InfixCalculator

theorem takeWhile_dropWhile_iff {p : α → Bool} {l run rest : List α} :
    (l.takeWhile p = run ∧ l.dropWhile p = rest) ↔
      l = run ++ rest ∧ (∀ a ∈ run, p a = true) ∧ ∀ a, rest.head? = some a → p a = false := by
  constructor
  · rintro ⟨rfl, rfl⟩
    refine ⟨List.takeWhile_append_dropWhile.symm, List.all_eq_true.mp List.all_takeWhile, ?_⟩
    intro a ha
    have hstop := List.head?_dropWhile_not p l
    rw [ha] at hstop
    exact hstop
  · rintro ⟨rfl, hrun, hrest⟩
    rw [List.takeWhile_append_of_pos hrun, List.dropWhile_append_of_pos hrun]
    cases rest with
    | nil => simp
    | cons a tail => simp [hrest a rfl]

theorem takeWhile_append_of_boundary {p : α → Bool} {run rest : List α}
    (hrun : ∀ a ∈ run, p a = true) (hrest : ∀ a, rest.head? = some a → p a = false) :
    (run ++ rest).takeWhile p = run :=
  (takeWhile_dropWhile_iff.mpr ⟨rfl, hrun, hrest⟩).1

theorem dropWhile_append_of_boundary {p : α → Bool} {run rest : List α}
    (hrun : ∀ a ∈ run, p a = true) (hrest : ∀ a, rest.head? = some a → p a = false) :
    (run ++ rest).dropWhile p = rest :=
  (takeWhile_dropWhile_iff.mpr ⟨rfl, hrun, hrest⟩).2

theorem eq_false_of_getLast?_rdropWhile {p : α → Bool} {l : List α} {a : α}
    (ha : (l.rdropWhile p).getLast? = some a) : p a = false := by
  have hne : l.rdropWhile p ≠ [] := by
    intro hnil
    rw [hnil] at ha
    cases ha
  rw [List.getLast?_eq_some_getLast hne] at ha
  rw [← Option.some.inj ha]
  exact Bool.eq_false_iff.mpr (List.rdropWhile_last_not p l hne)

end InfixCalculator
