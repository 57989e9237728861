/-!
# The history of evaluations

A history keeps the most recent entries, oldest first, up to a capacity between
1 and 1000.  A new entry makes room for itself by pushing out the oldest ones.
-/

namespace InfixCalculator

/-- One evaluation: the expression, and the text of its value or the message of
its refusal. -/
structure Entry where
  expression : String
  outcome : String
  refused : Bool
deriving DecidableEq, Repr

structure History where
  capacity : Nat
  entries : List Entry
  one_le_capacity : 1 ≤ capacity
  capacity_le : capacity ≤ 1000
  length_le : entries.length ≤ capacity

namespace History

/-- The capacity of a history for which none is requested. -/
def defaultCapacity : Nat := 50

def maxCapacity : Nat := 1000

/-- A history without entries.  A requested capacity out of bounds is clamped. -/
def empty (requested : Nat) : History where
  capacity := max 1 (min requested maxCapacity)
  entries := []
  one_le_capacity := Nat.le_max_left ..
  capacity_le := Nat.max_le.2 ⟨by decide, Nat.min_le_right ..⟩
  length_le := Nat.zero_le _

def add (history : History) (entry : Entry) : History :=
  let kept := history.entries.drop (history.entries.length + 1 - history.capacity)
  { history with
    entries := kept ++ [entry]
    length_le := by
      have := history.one_le_capacity
      simp only [kept, List.length_append, List.length_drop, List.length_singleton]
      omega }

def clear (history : History) : History :=
  { history with entries := [], length_le := Nat.zero_le _ }

/-- The entry at a line of the list shown, where the newest is line `0`. -/
def line? (history : History) (line : Nat) : Option Entry :=
  history.entries.reverse[line]?

@[simp] theorem entries_empty (requested : Nat) : (empty requested).entries = [] := rfl

@[simp] theorem entries_clear (history : History) : history.clear.entries = [] := rfl

theorem entries_add (history : History) (entry : Entry) :
    (history.add entry).entries =
      history.entries.drop (history.entries.length + 1 - history.capacity) ++ [entry] := rfl

end History
end InfixCalculator
