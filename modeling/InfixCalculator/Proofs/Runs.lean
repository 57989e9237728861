import InfixCalculator.Session.Frame

/-!
# Runs of a session

A run alternates in any way between texts typed into the entry field and frames.
Of its actions only evaluations and clearings of the results leave a mark: the
button for an evaluation, Enter in a frame where the field has the focus, and the
two buttons that empty the results.
-/

namespace InfixCalculator

/-- A text typed into the field, which draws no frame, or a frame with its event. -/
inductive Action where
  | type (text : String)
  | frame (event : Event)
deriving DecidableEq, Repr

/-- An evaluation of the entry without its outer blanks, or a clearing of the
results. -/
inductive Mark where
  | evaluation (input : String)
  | clearing
deriving DecidableEq, Repr

namespace Session

def evaluationMark (session : Session) : Mark :=
  .evaluation (Text.trim session.entry)

variable [Toolkit]

def act (session : Session) : Action → Session
  | .type text => { session with entry := text }
  | .frame event => session.frame event

def run (session : Session) (actions : List Action) : Session :=
  actions.foldl act session

def mark? (session : Session) : Action → Option Mark
  | .frame (.click .evaluate) => some session.evaluationMark
  | .frame .enter =>
    if Toolkit.hasFocus session.focused then some session.evaluationMark else none
  | .frame (.click .clearResults) | .frame (.click .reset) => some .clearing
  | _ => none

/-- The marks that a run leaves, the oldest first. -/
def marks (session : Session) : List Action → List Mark
  | [] => []
  | action :: actions => (session.mark? action).toList ++ (session.act action).marks actions

theorem run_concat (session : Session) (actions : List Action) (last : Action) :
    session.run (actions ++ [last]) = (session.run actions).act last := by
  rw [run, List.foldl_append]
  rfl

/-- What every action keeps holds after every run. -/
theorem run_of_act {p : Session → Prop}
    (hact : ∀ session action, p session → p (session.act action))
    {session : Session} (hsession : p session) (actions : List Action) :
    p (session.run actions) := by
  induction actions generalizing session with
  | nil => exact hsession
  | cons action actions ih => exact ih (hact session action hsession)

@[simp] theorem frame_click_evaluate (session : Session) :
    session.frame (.click .evaluate) = session.evaluate := rfl

/-- All that an action can do: evaluate, clear the results, clear the history, or
change nothing but the entry and the focus. -/
inductive Acts (session : Session) (action : Action) : Prop
  | evaluate (hmark : session.mark? action = some session.evaluationMark)
      (hact : session.act action = session.evaluate)
  | clearResults (entry : String) (hmark : session.mark? action = some .clearing)
      (hact : session.act action = { session.clearResults with entry })
  | clearHistory (hclick : action = .frame (.click .clearHistory))
      (hmark : session.mark? action = none) (hact : session.act action = session.clearHistory)
  | edit (entry : String) (focused : Bool) (hmark : session.mark? action = none)
      (hact : session.act action = { session with entry, focused })

theorem acts (session : Session) (action : Action) : session.Acts action := by
  cases action with
  | type text => exact .edit text session.focused rfl rfl
  | frame event =>
      cases event with
      | idle => exact .edit session.entry false rfl rfl
      | escape => exact .edit "" false rfl rfl
      | enter =>
          by_cases hfocus : Toolkit.hasFocus session.focused = true
          · exact .evaluate (if_pos hfocus) (if_pos hfocus)
          · exact .edit session.entry false (if_neg hfocus) (if_neg hfocus)
      | restore line =>
          cases hline : session.history.line? line with
          | none =>
              apply Acts.edit session.entry false rfl
              simp [act, frame, hline, blur]
          | some entry =>
              apply Acts.edit entry.expression true rfl
              simp [act, frame, hline, restore]
      | click button =>
          cases button with
          | evaluate => exact .evaluate rfl rfl
          | clearResults => exact .clearResults session.entry rfl rfl
          | reset => exact .clearResults "" rfl rfl
          | clearHistory =>
              by_cases hoffers : session.offers .clearHistory = true
              · exact .clearHistory rfl rfl (if_pos hoffers)
              · exact .edit session.entry false rfl (if_neg hoffers)
          | clearEntry => exact .edit "" true rfl rfl
          | erase => exact .edit _ true rfl rfl
          | key k => exact .edit _ true rfl rfl

theorem act_of_evaluationMark {session : Session} {action : Action}
    (hmark : session.mark? action = some session.evaluationMark) :
    session.act action = session.evaluate := by
  cases session.acts action with
  | evaluate _ hact => exact hact
  | clearResults _ hother _ =>
      rw [hmark] at hother
      cases hother
  | clearHistory _ hother _ =>
      rw [hmark] at hother
      cases hother
  | edit _ _ hother _ =>
      rw [hmark] at hother
      cases hother

end Session
end InfixCalculator
