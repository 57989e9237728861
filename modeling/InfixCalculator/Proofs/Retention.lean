import InfixCalculator.History
import Mathlib.Data.List.DropRight
import Mathlib.Data.List.Induction

/-!
# What a history retains

A history changes when an entry is added to it and when it is cleared.  After any
changes it holds the most recent of the entries added since the latest clearing,
as many of them as its capacity allows.

A new entry finds room because the oldest ones are pushed out one by one.  That
loop ends for every capacity but zero.  As no history ever holds more than its
capacity, it pushes out one entry from a full history and none from any other.
-/

namespace InfixCalculator
namespace History

/-! ## Making room -/

/-- The loop that pushes out the oldest entry as long as there is no room for one
more: the number of its rounds, and the entries before and after it. -/
inductive MakesRoom (capacity : Nat) : Nat → List Entry → List Entry → Prop
  | done {entries : List Entry} (hroom : entries.length < capacity) :
      MakesRoom capacity 0 entries entries
  | pushOut {rounds : Nat} {entries kept : List Entry} (hfull : capacity ≤ entries.length)
      (hrest : MakesRoom capacity rounds entries.tail kept) :
      MakesRoom capacity (rounds + 1) entries kept

/-- The loop ends exactly when the capacity is not zero, and it stops as soon as
there is room. -/
theorem makesRoom_iff {capacity rounds : Nat} {entries kept : List Entry} :
    MakesRoom capacity rounds entries kept ↔
      1 ≤ capacity ∧ rounds = entries.length + 1 - capacity ∧ kept = entries.drop rounds := by
  constructor
  · intro hloop
    induction hloop with
    | done hroom => exact ⟨by omega, by omega, rfl⟩
    | pushOut hfull _ ih =>
        obtain ⟨hcapacity, hrounds, hkept⟩ := ih
        rw [List.length_tail] at hrounds
        refine ⟨hcapacity, by omega, ?_⟩
        rw [hkept, List.drop_tail]
  · rintro ⟨hcapacity, hrounds, rfl⟩
    induction rounds generalizing entries with
    | zero => exact .done (by omega)
    | succ rounds ih =>
        rw [← List.drop_tail]
        exact .pushOut (by omega) (ih (by rw [List.length_tail]; omega))

/-- What the loop does before an entry is added: nothing where there is room, and
otherwise it pushes out the oldest entry alone. -/
theorem exists_makesRoom (history : History) (entry : Entry) :
    ∃ rounds kept, MakesRoom history.capacity rounds history.entries kept ∧
      (history.add entry).entries = kept ++ [entry] ∧
      (history.entries.length < history.capacity → kept = history.entries) ∧
      (history.entries.length = history.capacity → ∃ oldest, history.entries = oldest :: kept) := by
  have hcapacity := history.one_le_capacity
  refine ⟨_, _, makesRoom_iff.mpr ⟨hcapacity, rfl, rfl⟩, history.entries_add entry, ?_, ?_⟩
  · intro hroom
    rw [Nat.sub_eq_zero_of_le hroom, List.drop_zero]
  · intro hfull
    rw [hfull, Nat.add_sub_cancel_left, List.drop_one]
    cases hentries : history.entries with
    | nil =>
        rw [hentries, List.length_nil] at hfull
        omega
    | cons oldest kept => exact ⟨oldest, rfl⟩

/-! ## Changes -/

inductive Change where
  | add (entry : Entry)
  | clear
deriving DecidableEq, Repr

namespace Change

def entry? : Change → Option Entry
  | add entry => some entry
  | clear => none

/-- The entries added since the latest clearing, the oldest first. -/
def addedSinceClear (changes : List Change) : List Entry :=
  (changes.rtakeWhile (· ≠ clear)).filterMap entry?

theorem addedSinceClear_concat_add (changes : List Change) (entry : Entry) :
    addedSinceClear (changes ++ [add entry]) = addedSinceClear changes ++ [entry] := by
  simp [addedSinceClear, entry?]

theorem addedSinceClear_concat_clear (changes : List Change) :
    addedSinceClear (changes ++ [clear]) = [] := by
  simp [addedSinceClear]

end Change

def change (history : History) : Change → History
  | .add entry => history.add entry
  | .clear => history.clear

def run (history : History) (changes : List Change) : History :=
  changes.foldl change history

theorem run_concat (history : History) (changes : List Change) (last : Change) :
    history.run (changes ++ [last]) = (history.run changes).change last := by
  rw [run, List.foldl_append]
  rfl

theorem capacity_run (history : History) (changes : List Change) :
    (history.run changes).capacity = history.capacity := by
  induction changes using List.reverseRecOn with
  | nil => rfl
  | append_singleton changes last ih =>
      rw [run_concat, ← ih]
      cases last <;> rfl

/-- A history of the latest entries, as many as fit, remains one when an entry is
added. -/
theorem entries_add_eq_rtake {history : History} {added : List Entry}
    (hentries : history.entries = added.rtake history.capacity) (entry : Entry) :
    (history.add entry).entries = (added ++ [entry]).rtake history.capacity := by
  have hcapacity := history.one_le_capacity
  have hdropped : (added.rtake history.capacity).drop
      ((added.rtake history.capacity).length + 1 - history.capacity) =
        added.drop (added.length + 1 - history.capacity) := by
    rw [List.rtake, List.drop_drop, List.length_drop]
    congr 1
    omega
  rw [entries_add, hentries, hdropped, List.rtake, List.length_append, List.length_singleton,
    List.drop_append_of_le_length (by omega)]

theorem entries_run (requested : Nat) (changes : List Change) :
    ((empty requested).run changes).entries =
      (Change.addedSinceClear changes).rtake (empty requested).capacity := by
  induction changes using List.reverseRecOn with
  | nil => simp [run, Change.addedSinceClear]
  | append_singleton changes last ih =>
      rw [run_concat]
      cases last with
      | clear =>
          rw [Change.addedSinceClear_concat_clear, List.rtake_nil]
          rfl
      | add entry =>
          rw [Change.addedSinceClear_concat_add]
          rw [← capacity_run (empty requested) changes] at ih ⊢
          exact entries_add_eq_rtake ih entry

/-- After any changes a history holds the latest of the entries added since the
latest clearing, as many as its capacity allows, and it is ready for the next. -/
theorem run_retains_latest (requested : Nat) (changes : List Change) :
    let history := (empty requested).run changes
    let added := Change.addedSinceClear changes
    history.capacity = max 1 (min requested 1000) ∧
      history.entries = added.rtake (min added.length history.capacity) ∧
      history.entries.reverse = added.reverse.take (min added.length history.capacity) ∧
      history.entries.length = min added.length history.capacity ∧
      (history.entries.isEmpty = true ↔ added = []) ∧
      ∀ entry, ∃ rounds kept, MakesRoom history.capacity rounds history.entries kept ∧
        (history.add entry).entries = kept ++ [entry] ∧
        (history.entries.length < history.capacity → kept = history.entries) ∧
        (history.entries.length = history.capacity →
          ∃ oldest, history.entries = oldest :: kept) := by
  intro history added
  have hcapacity : history.capacity = (empty requested).capacity :=
    capacity_run (empty requested) changes
  have hentries : history.entries = added.rtake (min added.length history.capacity) := by
    have hlatest : history.entries = added.rtake history.capacity := by
      rw [hcapacity]
      exact entries_run requested changes
    rw [hlatest, List.rtake, List.rtake]
    congr 1
    omega
  have hlength : history.entries.length = min added.length history.capacity := by
    rw [hentries, List.rtake, List.length_drop]
    omega
  refine ⟨hcapacity, hentries, ?_, hlength, ?_, history.exists_makesRoom⟩
  · rw [hentries, List.rtake_eq_reverse_take_reverse, List.reverse_reverse]
  · have hpositive := history.one_le_capacity
    rw [List.isEmpty_iff, ← List.length_eq_zero_iff, ← List.length_eq_zero_iff, hlength]
    omega

end History
end InfixCalculator
