import InfixCalculator.Calculation
import InfixCalculator.History
import InfixCalculator.Keypad

/-!
# Sessions

What the window remembers between two actions: the entry, the last result, the
message of the last refusal, the working of the last calculation, the history,
and whether the entry field is to receive the focus.

A refusal keeps the last result but withdraws the working.  No evaluation
changes the entry.
-/

namespace InfixCalculator

structure Session where
  entry : String := ""
  /-- The text of the last value, empty if there is none. -/
  result : String := ""
  /-- The message of the last refusal, empty if there is none. -/
  error : String := ""
  working : Working := {}
  history : History
  /-- Whether the field is to receive the focus in the next frame. -/
  focused : Bool := true

namespace Session

def start (history : History) : Session := { history }

def clearEntry (session : Session) : Session :=
  { session with entry := "", focused := true }

def clearResults (session : Session) : Session :=
  { session with result := "", error := "", working := {}, focused := true }

/-- Everything but the history is emptied. -/
def reset (session : Session) : Session :=
  session.clearResults.clearEntry

def refuse (session : Session) (message : String) : Session :=
  { session with error := message, working := {}, focused := true }

def accept (session : Session) (result : String) (working : Working) : Session :=
  { session with result, error := "", working, focused := true }

def restore (session : Session) (expression : String) : Session :=
  { session with entry := expression, focused := true }

def clearHistory (session : Session) : Session :=
  { session with history := session.history.clear, focused := true }

def press (session : Session) (key : Key) : Session :=
  { session with
    entry := .ofList (Keypad.insert key session.entry.toList), focused := true }

def erase (session : Session) : Session :=
  { session with entry := .ofList (Keypad.erase session.entry.toList), focused := true }

def blankMessage : String := "Entrée vide"

def record (session : Session) (expression outcome : String) (refused : Bool) : Session :=
  { session with history := session.history.add ⟨expression, outcome, refused⟩ }

def attempt (session : Session) (expression : String) : Session :=
  match Calculation.ofText expression with
  | .ok calculation =>
    (session.record expression calculation.result false).accept
      calculation.result calculation.working
  | .error refusal =>
    (session.record expression refusal.message true).refuse refusal.message

/-- Evaluates the entry without its outer blanks.  A blank entry is refused without
a record. -/
def evaluate (session : Session) : Session :=
  if Text.trim session.entry = "" then session.refuse blankMessage
  else session.attempt (Text.trim session.entry)

@[simp] theorem entry_evaluate (session : Session) :
    session.evaluate.entry = session.entry := by
  unfold evaluate attempt
  split
  · rfl
  · split <;> rfl

end Session
end InfixCalculator
