import InfixCalculator.Session

/-!
# Frames

The window is redrawn in frames, and at most one event happens in a frame.  A
frame starts by asking for the focus that the session holds for its entry field.
Enter evaluates only if the field has the focus then, which is for the toolkit to
say.  Every click hands the focus back to the session.
-/

namespace InfixCalculator

/-- What the window leaves to its toolkit: whether the entry field has the focus when
Enter is looked at, by whether the frame asked for it. -/
class Toolkit where
  hasFocus : (requested : Bool) → Bool

/-- A field of one line gives its focus up to Enter, so it has the focus only if the
frame asked for it. -/
def Toolkit.FocusFollowsRequest [Toolkit] : Prop :=
  ∀ requested, hasFocus requested = requested

instance Toolkit.singleLine : Toolkit where
  hasFocus requested := requested

inductive Button where
  | clearEntry
  | clearResults
  | reset
  | erase
  | evaluate
  | key (key : Key)
  | clearHistory
deriving DecidableEq, Repr

def Button.label : Button → String
  | clearEntry => "C"
  | clearResults => "CLR"
  | reset => "AC"
  | erase => "DEL"
  | evaluate => "="
  | key k => k.label
  | clearHistory => "Vider l’historique"

/-- What can happen in a frame.  The newest line of the history is line `0`. -/
inductive Event where
  | idle
  | click (button : Button)
  | restore (line : Nat)
  | enter
  | escape
deriving DecidableEq, Repr

namespace Session

def click (session : Session) : Button → Session
  | .clearEntry => session.clearEntry
  | .clearResults => session.clearResults
  | .reset => session.reset
  | .erase => session.erase
  | .evaluate => session.evaluate
  | .key k => session.press k
  | .clearHistory => session.clearHistory

def offers (session : Session) : Button → Bool
  | .clearHistory => !session.history.entries.isEmpty
  | _ => true

def blur (session : Session) : Session :=
  { session with focused := false }

/-- A session after one frame.  A click on what is not shown is no event. -/
def frame [Toolkit] (session : Session) : Event → Session
  | .idle => session.blur
  | .escape => session.clearEntry.blur
  | .enter => if Toolkit.hasFocus session.focused then session.evaluate else session.blur
  | .click button => if session.offers button then session.click button else session.blur
  | .restore line =>
    match session.history.line? line with
    | some entry => session.restore entry.expression
    | none => session.blur

theorem focused_evaluate (session : Session) : session.evaluate.focused = true := by
  unfold evaluate attempt
  split
  · rfl
  · split <;> rfl

/-- Every button hands the focus back to the field. -/
theorem focused_click (session : Session) (button : Button) :
    (session.click button).focused = true := by
  cases button with
  | evaluate => exact session.focused_evaluate
  | _ => rfl

end Session
end InfixCalculator
