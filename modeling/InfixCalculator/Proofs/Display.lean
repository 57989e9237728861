import InfixCalculator.Proofs.Runs
import Mathlib.Data.List.Induction

/-!
# What a run displays

The result, the error and the working on display are three fields that different
actions change.  The main result reads them off the marks of the run instead: the
result off the latest accepted evaluation since the latest clearing, the error
and the working off the latest mark alone.

An action changes the fields as its mark says, so a run changes them as its marks
do, one after the other.
-/

namespace InfixCalculator

/-! ## Reading the marks -/

namespace Mark

/-- The calculation of an input, or the message shown instead. -/
def outcome (input : String) : Except String Calculation :=
  if input = "" then .error "Entrée vide"
  else (Calculation.ofText input).mapError Refusal.message

/-- The calculation of an evaluation that is accepted. -/
def calculation? : Mark → Option Calculation
  | evaluation input => (outcome input).toOption
  | clearing => none

/-- The message of an evaluation that is refused, or nothing. -/
def error : Mark → String
  | evaluation input =>
    match outcome input with
    | .ok _ => ""
    | .error message => message
  | clearing => ""

def working (mark : Mark) : Working :=
  mark.calculation?.elim {} Calculation.working

def valueText (calculation : Calculation) : String :=
  Decimal.Style.result.render calculation.value

/-- The text of the latest value since the latest clearing, if there is one. -/
def latestResult (marks : List Mark) : String :=
  ((marks.reverse.takeWhile (· ≠ clearing)).findSome? calculation?).elim "" valueText

def latestError (marks : List Mark) : String :=
  marks.getLast?.elim "" error

def latestWorking (marks : List Mark) : Working :=
  marks.getLast?.elim {} working

theorem error_eq_empty_or_working_eq_empty (mark : Mark) :
    mark.error = "" ∨ mark.working = {} := by
  cases mark with
  | clearing => exact Or.inl rfl
  | evaluation input =>
      cases houtcome : outcome input with
      | ok calculation => exact Or.inl (by simp [error, houtcome])
      | error message => exact Or.inr (by simp [working, calculation?, houtcome, Except.toOption])

theorem latestError_concat (marks : List Mark) (mark : Mark) :
    latestError (marks ++ [mark]) = mark.error := by
  simp [latestError]

theorem latestWorking_concat (marks : List Mark) (mark : Mark) :
    latestWorking (marks ++ [mark]) = mark.working := by
  simp [latestWorking]

theorem latestResult_concat_clearing (marks : List Mark) :
    latestResult (marks ++ [clearing]) = "" := by
  simp [latestResult]

theorem latestResult_concat_evaluation (marks : List Mark) (input : String) :
    latestResult (marks ++ [evaluation input]) =
      (evaluation input).calculation?.elim (latestResult marks) valueText := by
  cases hcalculation : (evaluation input).calculation? <;> simp [latestResult, hcalculation]

end Mark

/-! ## The fields on display -/

structure Display where
  result : String := ""
  error : String := ""
  working : Working := {}

def Session.display (session : Session) : Display :=
  ⟨session.result, session.error, session.working⟩

/-- The fields after one more mark. -/
def Display.next (display : Display) (mark : Mark) : Display where
  result :=
    match mark with
    | .evaluation _ => mark.calculation?.elim display.result Mark.valueText
    | .clearing => ""
  error := mark.error
  working := mark.working

theorem Session.display_evaluate (session : Session) :
    session.evaluate.display = session.display.next session.evaluationMark := by
  unfold evaluate attempt evaluationMark Display.next
  simp only [Mark.working, Mark.error, Mark.calculation?, Mark.outcome]
  by_cases hblank : Text.trim session.entry = ""
  · rw [if_pos hblank, if_pos hblank]
    rfl
  · rw [if_neg hblank, if_neg hblank]
    cases Calculation.ofText (Text.trim session.entry) <;> rfl

theorem Session.display_act [Toolkit] (session : Session) (action : Action) :
    (session.act action).display =
      (session.mark? action).elim session.display session.display.next := by
  cases session.acts action with
  | evaluate hmark hact =>
      rw [hmark, hact]
      exact session.display_evaluate
  | clearResults _ hmark hact =>
      rw [hmark, hact]
      rfl
  | clearHistory _ hmark hact =>
      rw [hmark, hact]
      rfl
  | edit _ _ hmark hact =>
      rw [hmark, hact]
      rfl

theorem Session.display_run [Toolkit] (session : Session) (actions : List Action) :
    (session.run actions).display =
      (session.marks actions).foldl Display.next session.display := by
  induction actions generalizing session with
  | nil => rfl
  | cons action actions ih =>
      rw [marks, List.foldl_append]
      refine (ih (session.act action)).trans ?_
      rw [display_act]
      cases session.mark? action <;> rfl

theorem Display.foldl_next (marks : List Mark) :
    marks.foldl Display.next {} =
      ⟨Mark.latestResult marks, Mark.latestError marks, Mark.latestWorking marks⟩ := by
  -- From the latest mark, which all three readings look at first.
  induction marks using List.reverseRecOn with
  | nil => rfl
  | append_singleton marks mark ih =>
      rw [List.foldl_append, ih, Mark.latestError_concat, Mark.latestWorking_concat]
      cases mark with
      | clearing => rw [Mark.latestResult_concat_clearing]; rfl
      | evaluation input => rw [Mark.latestResult_concat_evaluation]; rfl

/-- What is displayed after a run, read off its marks, and which of its actions
change the entry and the display. -/
theorem display_eq_latest [Toolkit] (requested : Nat) (actions : List Action) :
    let session := (Session.start (.empty requested)).run actions
    let marks := (Session.start (.empty requested)).marks actions
    session.result = Mark.latestResult marks ∧
      session.error = Mark.latestError marks ∧
      session.working = Mark.latestWorking marks ∧
      (session.error = "" ∨ session.working = {}) ∧
      ∀ action,
        (session.mark? action = some session.evaluationMark →
          (session.act action).entry = session.entry) ∧
        (session.mark? action = none →
          (session.act action).result = session.result ∧
            (session.act action).error = session.error ∧
            (session.act action).working = session.working) := by
  intro session marks
  have hdisplay : session.display =
      ⟨Mark.latestResult marks, Mark.latestError marks, Mark.latestWorking marks⟩ :=
    ((Session.start (.empty requested)).display_run actions).trans (Display.foldl_next marks)
  obtain ⟨hresult, herror, hworking⟩ := Display.mk.inj hdisplay
  refine ⟨hresult, herror, hworking, ?_, ?_⟩
  · rw [herror, hworking, Mark.latestError, Mark.latestWorking]
    cases marks.getLast? with
    | none => exact Or.inl rfl
    | some mark => exact mark.error_eq_empty_or_working_eq_empty
  · intro action
    constructor
    · intro hmark
      rw [Session.act_of_evaluationMark hmark, Session.entry_evaluate]
    · intro hmark
      have hkept := session.display_act action
      rw [hmark] at hkept
      exact Display.mk.inj hkept

end InfixCalculator
