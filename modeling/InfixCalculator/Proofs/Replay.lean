import InfixCalculator.Proofs.Runs
import Mathlib.Data.List.DropRight

/-!
# The history can be replayed

Every entry of the history is what an evaluation of its expression records: the
expression is trimmed and not blank, and the outcome is that of evaluating it.
This is kept by every action, as only evaluations record anything.

A trimmed expression is not changed when it is trimmed again.  So an entry that
is restored and evaluated once more is recorded as it was.
-/

namespace InfixCalculator

/-! ## Trimming -/

namespace Text

theorem dropWhile_dropEndWhile (p : α → Bool) (l : List α) :
    (dropEndWhile p (l.dropWhile p)).dropWhile p = dropEndWhile p (l.dropWhile p) := by
  cases hkept : dropEndWhile p (l.dropWhile p) with
  | nil => rfl
  | cons a rest =>
      -- What is kept is a prefix, so it starts where the first drop stopped.
      obtain ⟨tail, htail⟩ := List.rdropWhile_prefix p (l.dropWhile p)
      have hhead := List.head?_dropWhile_not p l
      rw [← htail, show (l.dropWhile p).rdropWhile p = a :: rest from hkept] at hhead
      have ha : p a = false := hhead
      rw [List.dropWhile_cons, ha]
      rfl

theorem trim_trim (text : String) : trim (trim text) = trim text := by
  unfold trim
  rw [String.toList_ofList, dropWhile_dropEndWhile]
  exact congrArg String.ofList (List.rdropWhile_idempotent _ _)

end Text

/-! ## Entries and the histories they are added to -/

/-- The entry records an evaluation of its expression. -/
structure Entry.Truthful (entry : Entry) : Prop where
  expression_ne : entry.expression ≠ ""
  trim_expression : Text.trim entry.expression = entry.expression
  outcome_eq :
    (entry.refused = false ∧ ∃ value, evaluate entry.expression = .ok value ∧
        entry.outcome = Decimal.Style.result.render value) ∨
      (entry.refused = true ∧ ∃ refusal, evaluate entry.expression = .error refusal ∧
        entry.outcome = refusal.message)

/-- What an evaluation of an input records. -/
def Entry.ofInput (input : String) : Entry :=
  match Calculation.ofText input with
  | .ok calculation => ⟨input, calculation.result, false⟩
  | .error refusal => ⟨input, refusal.message, true⟩

@[simp] theorem Entry.expression_ofInput (input : String) :
    (Entry.ofInput input).expression = input := by
  unfold ofInput
  split <;> rfl

theorem Entry.truthful_ofInput {input : String} (hne : input ≠ "")
    (htrim : Text.trim input = input) : (Entry.ofInput input).Truthful := by
  have hevaluate := Calculation.map_value_ofText input
  unfold ofInput
  cases hcalculation : Calculation.ofText input with
  | ok calculation =>
      rw [hcalculation] at hevaluate
      exact ⟨hne, htrim, Or.inl ⟨rfl, calculation.value, hevaluate.symm, rfl⟩⟩
  | error refusal =>
      rw [hcalculation] at hevaluate
      exact ⟨hne, htrim, Or.inr ⟨rfl, refusal, hevaluate.symm, rfl⟩⟩

theorem Entry.Truthful.ofInput_eq {entry : Entry} (htruthful : entry.Truthful) :
    Entry.ofInput entry.expression = entry := by
  obtain ⟨expression, outcome, refused⟩ := entry
  have hevaluate := Calculation.map_value_ofText expression
  unfold ofInput
  rcases htruthful.outcome_eq with
    ⟨hrefused, value, hvalue, houtcome⟩ | ⟨hrefused, refusal, hrefusal, houtcome⟩
  · simp only at hrefused hvalue houtcome
    subst hrefused houtcome
    rw [hvalue] at hevaluate
    cases hcalculation : Calculation.ofText expression with
    | ok calculation =>
        rw [hcalculation] at hevaluate
        obtain rfl : calculation.value = value := Except.ok.inj hevaluate
        rfl
    | error refusal =>
        rw [hcalculation] at hevaluate
        cases hevaluate
  · simp only at hrefused hrefusal houtcome
    subst hrefused houtcome
    rw [hrefusal] at hevaluate
    cases hcalculation : Calculation.ofText expression with
    | ok calculation =>
        rw [hcalculation] at hevaluate
        cases hevaluate
    | error other =>
        rw [hcalculation] at hevaluate
        obtain rfl : other = refusal := Except.error.inj hevaluate
        rfl

/-- The entry is the newest of the next history, and only the oldest one goes when
the history is full. -/
def History.Appends (history : History) (entry : Entry) (next : History) : Prop :=
  next.capacity = history.capacity ∧
    next.entries =
      (if history.entries.length < history.capacity then history.entries
        else history.entries.tail) ++ [entry]

theorem History.appends_add (history : History) (entry : Entry) :
    history.Appends entry (history.add entry) := by
  refine ⟨rfl, ?_⟩
  rw [entries_add]
  split
  next hroom =>
    rw [Nat.sub_eq_zero_of_le (by omega), List.drop_zero]
  next hfull =>
    have hlength : history.entries.length = history.capacity := by
      have := history.length_le
      omega
    rw [hlength, Nat.add_sub_cancel_left, List.drop_one]

/-! ## Evaluations and the history -/

namespace Session

/-- What an evaluation of an input that is not blank records and shows. -/
structure Reports (session : Session) (entry : Entry) (next : Session) : Prop where
  appends : session.history.Appends entry next.history
  accepted : entry.refused = false → next.result = entry.outcome ∧ next.error = ""
  refused : entry.refused = true → next.error = entry.outcome ∧ next.result = session.result

theorem reports_attempt (session : Session) (input : String) :
    session.Reports (.ofInput input) (session.attempt input) := by
  unfold attempt Entry.ofInput
  cases Calculation.ofText input with
  | ok calculation =>
      exact ⟨session.history.appends_add _, fun _ => ⟨rfl, rfl⟩, by simp⟩
  | error refusal =>
      exact ⟨session.history.appends_add _, by simp, fun _ => ⟨rfl, rfl⟩⟩

theorem evaluate_of_blank {session : Session} (hblank : Text.trim session.entry = "") :
    session.evaluate = session.refuse blankMessage :=
  if_pos hblank

theorem evaluate_of_ne_blank {session : Session} (hne : Text.trim session.entry ≠ "") :
    session.evaluate = session.attempt (Text.trim session.entry) :=
  if_neg hne

theorem truthful_of_appends {history next : History} {entry : Entry}
    (hentries : ∀ old ∈ history.entries, old.Truthful) (hentry : entry.Truthful)
    (happends : history.Appends entry next) : ∀ new ∈ next.entries, new.Truthful := by
  intro new hnew
  rw [happends.2] at hnew
  rcases List.mem_append.mp hnew with hold | hlast
  · split at hold
    next => exact hentries new hold
    next => exact hentries new (List.mem_of_mem_tail hold)
  · rwa [List.mem_singleton.mp hlast]

theorem truthful_act [Toolkit] (session : Session) (action : Action)
    (hentries : ∀ entry ∈ session.history.entries, entry.Truthful) :
    ∀ entry ∈ (session.act action).history.entries, entry.Truthful := by
  cases session.acts action with
  | clearResults _ _ hact =>
      rw [hact]
      exact hentries
  | clearHistory _ _ hact => simp [hact, clearHistory]
  | edit _ _ _ hact =>
      rw [hact]
      exact hentries
  | evaluate _ hact =>
      rw [hact]
      by_cases hblank : Text.trim session.entry = ""
      · rw [evaluate_of_blank hblank]
        exact hentries
      · rw [evaluate_of_ne_blank hblank]
        exact truthful_of_appends hentries
          (Entry.truthful_ofInput hblank (Text.trim_trim session.entry))
          (session.reports_attempt (Text.trim session.entry)).appends

/-- Restoring a truthful entry and evaluating it gives the same entry again. -/
theorem reports_of_restore {session : Session} {entry : Entry} (hentry : entry.Truthful) :
    session.Reports entry (session.restore entry.expression).evaluate := by
  have htrim : Text.trim (session.restore entry.expression).entry = entry.expression :=
    hentry.trim_expression
  rw [evaluate_of_ne_blank (by rw [htrim]; exact hentry.expression_ne), htrim]
  have hreports := (session.restore entry.expression).reports_attempt entry.expression
  rw [hentry.ofInput_eq] at hreports
  exact ⟨hreports.appends, hreports.accepted, hreports.refused⟩

/-- A click on a line of the history and one on the button for an evaluation. -/
theorem exists_reports_of_line [Toolkit] {session : Session}
    (htruthful : ∀ entry ∈ session.history.entries, entry.Truthful) {line : Nat}
    (hline : line < session.history.entries.length) :
    ∃ entry, session.history.entries.reverse[line]? = some entry ∧
      session.Reports entry ((session.frame (.restore line)).frame (.click .evaluate)) := by
  have hlength : line < session.history.entries.reverse.length := by simpa using hline
  have hfound := List.getElem?_eq_getElem hlength
  have hentry := htruthful _ (List.mem_reverse.mp (List.getElem_mem hlength))
  have hrestore : session.frame (.restore line) =
      session.restore session.history.entries.reverse[line].expression := by
    simp only [frame, History.line?, hfound]
  refine ⟨_, hfound, ?_⟩
  rw [hrestore, frame_click_evaluate]
  exact reports_of_restore hentry

/-- What an action does to the history. -/
theorem history_act [Toolkit] (session : Session) (action : Action) :
    (session.mark? action = some session.evaluationMark → Text.trim session.entry ≠ "" →
      ∃ entry, entry.expression = Text.trim session.entry ∧
        session.history.Appends entry (session.act action).history) ∧
    (session.mark? action = some session.evaluationMark → Text.trim session.entry = "" →
      (session.act action).history = session.history) ∧
    (session.mark? action ≠ some session.evaluationMark →
      action ≠ .frame (.click .clearHistory) →
        (session.act action).history = session.history) := by
  refine ⟨?_, ?_, ?_⟩
  · intro hmark hne
    rw [act_of_evaluationMark hmark, evaluate_of_ne_blank hne]
    exact ⟨_, Entry.expression_ofInput _, (session.reports_attempt _).appends⟩
  · intro hmark hblank
    rw [act_of_evaluationMark hmark, evaluate_of_blank hblank]
    rfl
  · intro hmark hclear
    cases session.acts action with
    | evaluate hother _ => exact absurd hother hmark
    | clearHistory hclick _ _ => exact absurd hclick hclear
    | clearResults _ _ hact =>
        rw [hact]
        rfl
    | edit _ _ _ hact => rw [hact]

end Session

/-- The history after a run: its entries are true, every action does to it what it
should, and each of its lines can be replayed. -/
theorem history_truthful_and_replayable [Toolkit] (requested : Nat) (actions : List Action) :
    let session := (Session.start (.empty requested)).run actions
    (∀ entry ∈ session.history.entries, entry.Truthful) ∧
      (∀ action,
        (session.mark? action = some session.evaluationMark → Text.trim session.entry ≠ "" →
          ∃ entry, entry.expression = Text.trim session.entry ∧
            session.history.Appends entry (session.act action).history) ∧
        (session.mark? action = some session.evaluationMark → Text.trim session.entry = "" →
          (session.act action).history = session.history) ∧
        (session.mark? action ≠ some session.evaluationMark →
          action ≠ .frame (.click .clearHistory) →
            (session.act action).history = session.history)) ∧
      ∀ line, line < session.history.entries.length →
        ∃ entry, session.history.entries.reverse[line]? = some entry ∧
          session.Reports entry ((session.frame (.restore line)).frame (.click .evaluate)) := by
  intro session
  have htruthful : ∀ entry ∈ session.history.entries, entry.Truthful :=
    Session.run_of_act Session.truthful_act (by simp [Session.start]) actions
  exact ⟨htruthful, session.history_act, fun line => Session.exists_reports_of_line htruthful⟩

end InfixCalculator
